/-
Conservation of credits between two credit rings of one configuration.

For one direction, every slot of the sender is a credit that it holds, a Write
that the receiver has not freed, or a freed slot whose count the sender has not
taken.  `base` Writes have arrived at the receiver, `r` is the freed count that
the sender has taken and `counts` are those on their way to it.  Nothing is
assumed about posts, so completions may be dropped and slots may stay unreleased
for ever.
-/
import RdmaIo.Ring.CreditMoves

namespace RdmaIo

open CreditEndpoint
open CreditRingSystem
open List

/-- Arrival numbers from `h` up to `n` have slots of their own; `R` holds of those
that are released. -/
structure SlotWindow (m : Nat) (map : VirtualIdxMap) (t : CompletionTracker)
    (R : Nat → Bool) (h n : Nat) : Prop where
  mapSize : map.length = m
  trackerCapacity : t.capacity = m
  tracked : t.Window h R
  arrived : ∀ i, R i = true → i < n
  held : ∀ (idx o l s : Nat), map[idx]? = some (some (o, l, s)) → h ≤ s ∧ s < n ∧ R s = false
  inj : SeqInj map
  le : h ≤ n
  window : n ≤ h + m

namespace SlotWindow

variable {m h n : Nat} {map : VirtualIdxMap} {t : CompletionTracker} {R : Nat → Bool}

theorem new (hm : 0 < m) :
    SlotWindow m (List.replicate m none) (CompletionTracker.new m) (fun _ => false) 0 0 where
  mapSize := by simp
  trackerCapacity := rfl
  tracked := CompletionTracker.new_window hm
  arrived i hi := by cases hi
  held idx o l s hidx := by
    simp [List.getElem?_replicate] at hidx
  inj i j x y hi := by
    simp [List.getElem?_replicate] at hi
  le := le_rfl
  window := Nat.zero_le _

section

variable (w : SlotWindow m map t R h n)

include w

theorem pos : 0 < m :=
  w.trackerCapacity ▸ w.tracked.capacity_pos

theorem occupied_le : occupied map ≤ n - h := by
  apply RdmaIo.occupied_le w.inj
  intro idx o l s hidx
  obtain ⟨hlo, hhi, -⟩ := w.held idx o l s hidx
  exact ⟨hlo, hhi⟩

/-- Number `i` is released, with `n'` numbers arrived and the messages of `map'`
still held. -/
theorem release {i n' : Nat} {map' : VirtualIdxMap} (hsize : map'.length = m)
    (hinj : SeqInj map') (hn : n ≤ n') (hwindow : n' ≤ h + m) (hi : h ≤ i ∧ i < n')
    (hheld : ∀ (idx o l s : Nat), map'[idx]? = some (some (o, l, s)) →
      h ≤ s ∧ s < n' ∧ R s = false ∧ s ≠ i) :
    ∃ R', SlotWindow m map' (t.release (i % m)).1 R' (h + (t.release (i % m)).2) n' := by
  obtain ⟨k, hk, hwin, hcap, hall, -⟩ := CompletionTracker.release_window w.tracked
    (i := i) (by rw [w.trackerCapacity]; omega)
  rw [w.trackerCapacity] at hk hwin hcap
  have harrived : ∀ j, (j == i || R j) = true → j < n' := by
    intro j hj
    rw [Bool.or_eq_true, beq_iff_eq] at hj
    rcases hj with rfl | hold
    · exact hi.2
    · exact (w.arrived j hold).trans_le hn
  refine ⟨fun j => j == i || R j, hsize, hcap, hk ▸ hwin, harrived, ?_, hinj, ?_, ?_⟩
  · intro idx o l s hidx
    obtain ⟨hlo, hhi, hR, hne⟩ := hheld idx o l s hidx
    have hopen : (s == i || R s) = false := by
      rw [hR, Bool.or_false, beq_eq_false_iff_ne]
      exact hne
    refine ⟨?_, hhi, hopen⟩
    -- the head passes released numbers only
    by_contra hpassed
    have hrel := hall (s - h) (by omega)
    rw [Nat.add_sub_cancel' hlo, hopen] at hrel
    cases hrel
  · rw [hk]
    cases k with
    | zero => exact w.le.trans hn
    | succ k =>
      have := harrived _ (hall k (Nat.lt_succ_self k))
      omega
  · omega

/-- A padding arrives and is released at once. -/
theorem padding (hroom : n < h + m) :
    ∃ R', SlotWindow m map (t.release (n % m)).1 R' (h + (t.release (n % m)).2)
      (n + 1) := by
  apply w.release w.mapSize w.inj (Nat.le_succ n) hroom ⟨w.le, Nat.lt_succ_self n⟩
  intro idx o l s hidx
  obtain ⟨hlo, hhi, hR⟩ := w.held idx o l s hidx
  exact ⟨hlo, Nat.lt_succ_of_lt hhi, hR, ne_of_lt hhi⟩

/-- A message arrives and is held under a free index. -/
theorem data (hroom : n < h + m) {idx : Nat} (o l : Nat) :
    SlotWindow m (map.set idx (some (o, l, n))) t R h (n + 1) := by
  have hfresh : holdsSeq map n = false := by
    by_contra hheld
    obtain ⟨j, o', l', hj⟩ := holdsSeq_iff.mp (by simpa using hheld)
    exact absurd (w.held j o' l' n hj).2.1 (lt_irrefl n)
  refine ⟨by simp [w.mapSize], w.trackerCapacity, w.tracked,
    fun i hi => Nat.lt_succ_of_lt (w.arrived i hi), ?_, w.inj.set_some hfresh,
    Nat.le_succ_of_le w.le, hroom⟩
  intro j o' l' s hj
  rw [List.getElem?_set] at hj
  split at hj
  · split at hj
    · simp only [Option.some.injEq, Prod.mk.injEq] at hj
      obtain ⟨-, -, rfl⟩ := hj
      refine ⟨w.le, Nat.lt_succ_self n, ?_⟩
      by_contra hR
      exact absurd (w.arrived n (by simpa using hR)) (lt_irrefl n)
    · cases hj
  · obtain ⟨hlo, hhi, hR⟩ := w.held j o' l' s hj
    exact ⟨hlo, Nat.lt_succ_of_lt hhi, hR⟩

end

variable {idx o l s : Nat}

theorem held_of_set_none {j : Nat} (hj : (map.set idx none)[j]? = some (some (o, l, s))) :
    idx ≠ j ∧ map[j]? = some (some (o, l, s)) := by
  rw [List.getElem?_set] at hj
  split at hj
  · split at hj <;> simp at hj
  · rename_i hne
    exact ⟨hne, hj⟩

/-- The application releases a held message. -/
theorem release_held (w : SlotWindow m map t R h n) (hidx : map[idx]? = some (some (o, l, s))) :
    ∃ R', SlotWindow m (map.set idx none) (t.release (s % m)).1 R'
      (h + (t.release (s % m)).2) n := by
  obtain ⟨hlo, hhi, -⟩ := w.held idx o l s hidx
  apply w.release (by simp [w.mapSize]) (w.inj.set_none idx) le_rfl w.window ⟨hlo, hhi⟩
  intro j o' l' s' hj
  obtain ⟨hne, hj⟩ := held_of_set_none hj
  obtain ⟨hlo', hhi', hR'⟩ := w.held j o' l' s' hj
  refine ⟨hlo', hhi', hR', ?_⟩
  intro hsame
  exact hne (w.inj idx j _ _ hidx hj hsame.symm)

/-- A held message is given up; its number stays unreleased. -/
theorem forget (w : SlotWindow m map t R h n) (idx : Nat) :
    SlotWindow m (map.set idx none) t R h n := by
  refine ⟨by simp [w.mapSize], w.trackerCapacity, w.tracked, w.arrived, ?_,
    w.inj.set_none idx, w.le, w.window⟩
  intro j o l s hj
  exact w.held j o l s (held_of_set_none hj).2

end SlotWindow

namespace CreditView

variable (v : CreditView)

/-- Writes posted and not yet arrived. -/
def writes : Nat :=
  v.wire.countP fun wr => !wr.isCredit

/-- Writes arrived and not yet taken from the receive queue. -/
def waiting : Nat :=
  v.recvCq.countP fun wc => !wc.isCredit

/-- Freed counts in the receive queue. -/
def countsQueued : List Nat :=
  (v.recvCq.filter WorkCompletion.isCredit).map WorkCompletion.immData

/-- Freed counts posted and not yet arrived. -/
def countsPosted : List Nat :=
  (v.wire.filter SendWr.isCredit).map SendWr.imm

/-- The accounts of the direction from `e` to `f`. -/
structure Balance (base r : Nat) (counts : List Nat) (R : Nat → Bool)
    (e f : CreditView) : Prop where
  narrow : e.slots < 2 ^ 32
  fits : e.slots ≤ f.slots
  credits : e.credits + (base + e.writes) = e.slots + r
  received : e.received = r % 2 ^ 32
  taken : f.arrivals + f.waiting ≤ base
  window : SlotWindow f.slots f.map f.tracker R f.freed f.arrivals
  cursor : f.cursor < f.slots
  onTheWay : e.countsQueued ++ f.countsPosted = counts.map (· % 2 ^ 32)
  increasing : (r :: counts).Pairwise (· < ·)
  bounded : ∀ k ∈ r :: counts, k ≤ f.announced
  announcedLe : f.announced ≤ f.freed

namespace Balance

variable {base r : Nat} {counts : List Nat} {R : Nat → Bool} {e f e' f' : CreditView}

section

variable (hb : Balance base r counts R e f)

include hb

theorem received_le : r ≤ f.freed :=
  (hb.bounded r mem_cons_self).trans hb.announcedLe

/-- The slots not freed hold every Write that has arrived, and the credits. -/
theorem base_le : base + e.credits ≤ f.freed + f.slots := by
  have hcredits := hb.credits
  have hreceived := hb.received_le
  have hfits := hb.fits
  omega

/-- While a Write waits in the receive queue there is a slot for it. -/
theorem room (hwaiting : 0 < f.waiting) : f.arrivals < f.freed + f.slots := by
  have htaken := hb.taken
  have hbase := hb.base_le
  omega

/-- A count on its way is ahead of `r` by at most all slots of the sender. -/
theorem count_le {k : Nat} (hk : k ∈ r :: counts) : k ≤ e.slots + r := by
  have hbound := (hb.bounded k hk).trans hb.announcedLe
  have hle := hb.window.le
  have htaken := hb.taken
  have hcredits := hb.credits
  omega

end

variable {wc : WorkCompletion} {cq : List WorkCompletion}

section

variable (hb : Balance base r counts R e f)

include hb

/-- The oldest count in the receive queue of the sender. -/
theorem front (hcq : e.recvCq = wc :: cq) (hcredit : wc.isCredit = true) :
    ∃ k rest, counts = k :: rest ∧ wc.immData = k % 2 ^ 32 ∧
      ({ e with recvCq := cq }.countsQueued ++ f.countsPosted) = rest.map (· % 2 ^ 32) := by
  have hway := hb.onTheWay
  rw [countsQueued, hcq, filter_cons_of_pos hcredit, map_cons, cons_append] at hway
  cases counts with
  | nil => simp at hway
  | cons k rest =>
    rw [map_cons, List.cons.injEq] at hway
    exact ⟨k, rest, rfl, hway.1, hway.2⟩

/-- The sender drops a completion. -/
theorem sender_drop (hcq : e.recvCq = wc :: cq) :
    ∃ counts', Balance base r counts' R { e with recvCq := cq } f := by
  by_cases hcredit : wc.isCredit = true
  · obtain ⟨k, rest, rfl, -, hway⟩ := hb.front hcq hcredit
    have hsub : (r :: rest).Sublist (r :: k :: rest) :=
      (sublist_cons_self k rest).cons_cons r
    exact ⟨rest, { hb with
      onTheWay := hway
      increasing := hb.increasing.sublist hsub
      bounded := fun j hj => hb.bounded j (hsub.subset hj) }⟩
  · refine ⟨counts, { hb with onTheWay := ?_ }⟩
    have hway := hb.onTheWay
    rwa [countsQueued, hcq, filter_cons_of_neg hcredit] at hway

/-- The sender takes a freed count: the 32-bit difference of the counts is their
difference. -/
theorem sender_credit (hcq : e.recvCq = wc :: cq) (hcredit : wc.isCredit = true) :
    ∃ r' counts', Balance base r' counts' R ({ e with recvCq := cq }.update wc.immData)
      f := by
  obtain ⟨k, rest, rfl, himm, hway⟩ := hb.front hcq hcredit
  have hpair := pairwise_cons.mp hb.increasing
  have hrk := hpair.1 k mem_cons_self
  have hle := hb.count_le (k := k) (by simp)
  have hnarrow := hb.narrow
  have hdelta : (wc.immData + 2 ^ 32 - e.received) % 2 ^ 32 = k - r := by
    rw [himm, hb.received]
    omega
  have hupdate : { e with recvCq := cq }.update wc.immData =
      { e with recvCq := cq, credits := e.credits + (k - r), received := wc.immData } := by
    unfold update
    simp only [hdelta]
    exact if_pos ⟨by omega, by omega⟩
  have hcredits := hb.credits
  rw [hupdate]
  refine ⟨k, rest, { hb with
    credits := ?_
    received := himm
    onTheWay := hway
    increasing := hpair.2
    bounded := fun j hj => hb.bounded j (mem_cons_of_mem r hj) }⟩
  change e.credits + (k - r) + (base + e.writes) = e.slots + k
  omega

/-- What the sender does with its slots and held messages is not this direction's
business, and neither are its credit Sends. -/
theorem sender (h : Move e e') : ∃ r' counts', Balance base r' counts' R e' f := by
  cases h with
  | post wr hwrite hcredit =>
    have hnot : wr.isCredit = false := by
      by_contra hcredit
      rw [SendWr.isWrite_of_isCredit (by simpa using hcredit)] at hwrite
      cases hwrite
    have hcredits := hb.credits
    refine ⟨r, counts, { hb with credits := ?_ }⟩
    change e.credits - 1 + (base + (e.wire ++ [wr]).countP _) = e.slots + r
    simp only [countP_append, countP_singleton, hnot]
    simp only [writes] at hcredits
    simp only [Bool.not_false, if_true]
    omega
  | announce =>
    refine ⟨r, counts, { hb with credits := ?_ }⟩
    have hcredits := hb.credits
    simp only [writes, countP_append] at hcredits ⊢
    exact hcredits
  | credit _ _ hcq hcredit => exact hb.sender_credit hcq hcredit
  | padding _ _ hcq | data _ _ _ _ _ hcq =>
    obtain ⟨counts', hb'⟩ := hb.sender_drop hcq
    exact ⟨r, counts', { hb' with }⟩
  | drop _ _ hcq =>
    obtain ⟨counts', hb'⟩ := hb.sender_drop hcq
    exact ⟨r, counts', hb'⟩
  | release => exact ⟨r, counts, { hb with }⟩
  | forget => exact ⟨r, counts, { hb with }⟩

/-- A Write that the receiver takes finds a slot. -/
theorem take (hcq : f.recvCq = wc :: cq) (hwrite : wc.isCredit = false) :
    f.arrivals < f.freed + f.slots ∧
      f.arrivals + 1 + { f with recvCq := cq }.waiting ≤ base := by
  have hone : f.waiting = { f with recvCq := cq }.waiting + 1 := by
    simp [waiting, hcq, hwrite]
  have htaken := hb.taken
  exact ⟨hb.room (by omega), by omega⟩

end

theorem waiting_le {v : CreditView}
    (hcq : v.recvCq = wc :: cq) : { v with recvCq := cq }.waiting ≤ v.waiting := by
  simp only [waiting, hcq]
  exact Sublist.countP_le (sublist_cons_self wc cq)

variable (hb : Balance base r counts R e f)

include hb

theorem receiver_drop (hcq : f.recvCq = wc :: cq) :
    Balance base r counts R e { f with recvCq := cq } := by
  have hle := waiting_le hcq
  have htaken := hb.taken
  refine { hb with taken := ?_ }
  change f.arrivals + _ ≤ base
  omega

theorem receiver_update (count : Nat) : Balance base r counts R e (f.update count) := by
  obtain ⟨_, _, hupdate⟩ := f.update_eq count
  rw [hupdate]
  exact { hb with }

theorem receiver_announce (hnews : f.announced < f.freed) : Balance base r (counts ++ [f.freed]) R e
      { f with wire := f.wire ++ [CreditRing.creditWr f.freed], announced := f.freed } := by
  refine { hb with onTheWay := ?_, increasing := ?_, bounded := ?_, announcedLe := le_rfl }
  · have hposted : { f with
        wire := f.wire ++ [CreditRing.creditWr f.freed]
        announced := f.freed }.countsPosted = f.countsPosted ++ [f.freed % 2 ^ 32] := by
      simp [countsPosted, filter_append, SendWr.isCredit, CreditRing.creditWr]
    rw [hposted, ← append_assoc, hb.onTheWay, map_append, map_singleton]
  · rw [← cons_append, pairwise_append]
    refine ⟨hb.increasing, pairwise_singleton _ _, ?_⟩
    intro a ha b hb'
    rw [mem_singleton] at hb'
    have := hb.bounded a ha
    omega
  · rw [← cons_append]
    exact forall_mem_append.mpr ⟨fun k hk => (hb.bounded k hk).trans hnews.le,
      forall_mem_singleton.mpr le_rfl⟩

theorem receiver_post {wr : SendWr} (hwrite : wr.isWrite = true) (n : Nat) :
    Balance base r counts R e { f with wire := f.wire ++ [wr], credits := n } := by
  refine { hb with onTheWay := ?_ }
  have hnot : ¬wr.isCredit = true := by
    intro hcredit
    rw [SendWr.isWrite_of_isCredit hcredit] at hwrite
    cases hwrite
  have hposted : { f with wire := f.wire ++ [wr], credits := n }.countsPosted = f.countsPosted := by
    simp [countsPosted, filter_append, hnot]
  rw [hposted]
  exact hb.onTheWay

/-- The slots of the receiver move on: `n` numbers have arrived and more slots are
free. -/
theorem of_slots {R' : Nat → Bool} {map : VirtualIdxMap} {tracker : CompletionTracker}
    {freed arrivals cursor : Nat} (hfreed : f.freed ≤ freed) (hcursor : cursor < f.slots)
    (hwindow : SlotWindow f.slots map tracker R' freed arrivals)
    (htaken : arrivals + { f with recvCq := cq }.waiting ≤ base) : Balance base r counts R' e
      { f with map, tracker, freed, arrivals, cursor, recvCq := cq } :=
  { hb with
    taken := htaken
    window := hwindow
    cursor := hcursor
    announcedLe := hb.announcedLe.trans hfreed }

theorem receiver (h : Move f f') : ∃ counts' R', Balance base r counts' R' e f' := by
  cases h with
  | post _ hwrite => exact ⟨counts, R, hb.receiver_post hwrite _⟩
  | announce hnews => exact ⟨_, R, hb.receiver_announce hnews⟩
  | credit wc _ hcq =>
    exact ⟨counts, R, (hb.receiver_drop hcq).receiver_update wc.immData⟩
  | padding _ _ hcq hwrite =>
    obtain ⟨hroom, htaken⟩ := hb.take hcq hwrite
    obtain ⟨R', hwindow⟩ := hb.window.padding hroom
    exact ⟨counts, R', hb.of_slots (Nat.le_add_right _ _) hb.cursor hwindow htaken⟩
  | data _ _ _ offset length hcq hwrite =>
    obtain ⟨hroom, htaken⟩ := hb.take hcq hwrite
    exact ⟨counts, R, hb.of_slots le_rfl (Nat.mod_lt _ hb.window.pos)
      (hb.window.data hroom offset length) htaken⟩
  | drop _ _ hcq => exact ⟨counts, R, hb.receiver_drop hcq⟩
  | release _ _ _ _ hheld =>
    obtain ⟨R', hwindow⟩ := hb.window.release_held hheld
    exact ⟨counts, R', hb.of_slots (Nat.le_add_right _ _) hb.cursor hwindow hb.taken⟩
  | forget idx =>
    exact ⟨counts, R, hb.of_slots le_rfl hb.cursor (hb.window.forget idx) hb.taken⟩

end Balance

/-- The accounts of a direction, for some counts. -/
def Balanced (base : Nat) (e f : CreditView) : Prop :=
  ∃ r counts R, Balance base r counts R e f

variable {base : Nat} {e f : CreditView} {wr : SendWr} {wire : List SendWr}

theorem Balanced.sender {e' : CreditView} (hb : Balanced base e f) (h : Moves e e') :
    Balanced base e' f := by
  induction h with
  | refl => exact hb
  | tail _ hmove ih =>
    obtain ⟨r, _, R, hb⟩ := ih
    obtain ⟨r', counts', hb'⟩ := hb.sender hmove
    exact ⟨r', counts', R, hb'⟩

theorem Balanced.receiver {f' : CreditView} (hb : Balanced base e f) (h : Moves f f') :
    Balanced base e f' := by
  induction h with
  | refl => exact hb
  | tail _ hmove ih =>
    obtain ⟨r, _, R, hb⟩ := ih
    obtain ⟨counts', R', hb'⟩ := hb.receiver hmove
    exact ⟨r, counts', R', hb'⟩

/-- The oldest request of the sender arrives at the receiver. -/
theorem Balanced.forth (hb : Balanced base e f) (hwire : e.wire = wr :: wire) :
    Balanced (base + if wr.isCredit then 0 else 1) { e with wire }
      { f with recvCq := f.recvCq ++ [wr.arrival] } := by
  obtain ⟨r, counts, R, hb⟩ := hb
  have hwrites : e.writes = { e with wire }.writes + if wr.isCredit then 0 else 1 := by
    simp only [writes, hwire, countP_cons]
    cases wr.isCredit <;> rfl
  have hwaiting : { f with recvCq := f.recvCq ++ [wr.arrival] }.waiting =
      f.waiting + if wr.isCredit then 0 else 1 := by
    simp only [waiting, countP_append, countP_singleton, wr.isCredit_arrival]
    cases wr.isCredit <;> rfl
  have hcredits := hb.credits
  have htaken := hb.taken
  refine ⟨r, counts, R, { hb with credits := ?_, taken := ?_ }⟩
  · change e.credits + _ = e.slots + r
    omega
  · change f.arrivals + _ ≤ _
    omega

/-- The oldest request of the receiver arrives at the sender. -/
theorem Balanced.back (hb : Balanced base e f) (hwire : f.wire = wr :: wire) :
    Balanced base { e with recvCq := e.recvCq ++ [wr.arrival] } { f with wire } := by
  obtain ⟨r, counts, R, hb⟩ := hb
  refine ⟨r, counts, R, { hb with onTheWay := ?_ }⟩
  have hway := hb.onTheWay
  simp only [countsQueued, countsPosted, hwire] at hway ⊢
  rw [← hway, filter_append, filter_singleton, wr.isCredit_arrival]
  by_cases hcredit : wr.isCredit = true
  · rw [filter_cons_of_pos hcredit, hcredit]
    simp [SendWr.arrival]
  · rw [filter_cons_of_neg hcredit]
    simp [hcredit]

end CreditView

/-- A connection with the number of Writes of each peer that have arrived at the
other; no step reads it. -/
structure CreditHistory where
  system : CreditRingSystem
  arrived : Duplex Nat

namespace CreditHistory

def start (system : CreditRingSystem) : CreditHistory :=
  { system, arrived := ⟨0, 0⟩ }

/-- What `label` adds to the Writes of `p` that have arrived.  Every request of a
credit ring that is no credit Send is a message or a padding. -/
def arriving (system : CreditRingSystem) (p : Side) : CreditRingLabel → Nat
  | .arrive q =>
    if q = p then
      match (system.get p).inner.qp.wire with
      | [] => 0
      | wr :: _ => if wr.isCredit then 0 else 1
    else 0
  | _ => 0

variable (n : CreditHistory)

def step (label : CreditRingLabel) : Option CreditHistory :=
  (CreditRingSystem.step n.system label).map fun system =>
    { system
      arrived :=
        { a := n.arrived.a + arriving n.system .a label
          b := n.arrived.b + arriving n.system .b label } }

/-- Messages and paddings that `p` has posted. -/
def posted (p : Side) : Nat :=
  n.arrived.get p + (n.system.get p).inner.qp.wire.countP fun wr => !wr.isCredit

/-- Messages and paddings of `p` that the peer has not contiguously released. -/
def unreleased (p : Side) : Nat :=
  n.posted p - (n.system.get p.other).inner.localFreedCredits

/-- Slots freed by the peer whose count `p` has not received: the distance of the
two 32-bit counters. -/
def unreceived (p : Side) : Nat :=
  ((n.system.get p.other).inner.localFreedCredits + 2 ^ 32 -
    (n.system.get p).inner.remoteFreedReceived) % 2 ^ 32

/-- Credits of the direction from `p` are conserved, and the peer has a slot and a
virtual index for everything that can reach it. -/
structure Conserved (n : CreditHistory) (p : Side) : Prop where
  balance : (n.system.get p).inner.remoteCredits + n.unreleased p + n.unreceived p =
    (n.system.get p).inner.maxOutstanding
  released : (n.system.get p.other).inner.localFreedCredits ≤ n.posted p
  /-- The tracker stands at the count of freed slots. -/
  head : (n.system.get p.other).inner.recvTracker.headSlot =
    (n.system.get p.other).inner.localFreedCredits %
      (n.system.get p.other).inner.maxOutstanding
  window : (n.system.get p.other).inner.localFreedCredits ≤
      (n.system.get p.other).inner.recvArrivalSeq ∧
    (n.system.get p.other).inner.recvArrivalSeq - (n.system.get p.other).inner.localFreedCredits ≤
      (n.system.get p.other).inner.maxOutstanding
  /-- Arrivals that are not contiguously released have slots of their own. -/
  slots : ∀ i j, (n.system.get p.other).inner.localFreedCredits ≤ i → i < j → j <
    (n.system.get p.other).inner.recvArrivalSeq → i % (n.system.get p.other).inner.maxOutstanding ≠
      j % (n.system.get p.other).inner.maxOutstanding
  /-- A held message has not been passed, and its slot is not marked. -/
  held : ∀ (idx o l s : Nat), (n.system.get p.other).inner.virtualIdxMap[idx]? =
    some (some (o, l, s)) → (n.system.get p.other).inner.localFreedCredits ≤ s ∧
      (n.system.get p.other).inner.recvTracker.released.getD
        (s % (n.system.get p.other).inner.maxOutstanding) false = false
  /-- Everything held and waiting fits the virtual index map. -/
  room : occupied (n.system.get p.other).inner.virtualIdxMap +
      (n.system.get p.other).recvCq.countP (fun wc => !wc.isCredit) ≤
    (n.system.get p.other).inner.maxOutstanding
  /-- A message that is taken next finds a free index. -/
  free : 0 < (n.system.get p.other).recvCq.countP (fun wc => !wc.isCredit) →
    ∃ idx, findVirtIdx (n.system.get p.other).inner.virtualIdxMap
      (n.system.get p.other).inner.maxOutstanding
      (n.system.get p.other).inner.maxOutstanding
      (n.system.get p.other).inner.nextVirtIdx = some idx

end CreditHistory

open CreditView in
/-- What the accounts say of the state. -/
theorem CreditHistory.conserved_of_balanced {n : CreditHistory} {p : Side}
    (hb : Balanced (n.arrived.get p) (n.system.get p).view (n.system.get p.other).view) :
    n.Conserved p := by
  obtain ⟨r, _, R, hb⟩ := hb
  have hw := hb.window
  have hcredits : (n.system.get p).inner.remoteCredits + n.posted p =
      (n.system.get p).inner.maxOutstanding + r := hb.credits
  have hreceived : (n.system.get p).inner.remoteFreedReceived = r % 2 ^ 32 := hb.received
  have hnarrow : (n.system.get p).inner.maxOutstanding < 2 ^ 32 := hb.narrow
  have hfreed : r ≤ (n.system.get p.other).inner.localFreedCredits := hb.received_le
  have hle : (n.system.get p.other).inner.localFreedCredits ≤
    (n.system.get p.other).inner.recvArrivalSeq := hw.le
  have hwindow : (n.system.get p.other).inner.recvArrivalSeq ≤
    (n.system.get p.other).inner.localFreedCredits +
      (n.system.get p.other).inner.maxOutstanding := hw.window
  have htaken : (n.system.get p.other).inner.recvArrivalSeq +
    (n.system.get p.other).recvCq.countP (fun wc => !wc.isCredit) ≤ n.arrived.get p :=
    hb.taken
  have hfits : (n.system.get p).inner.maxOutstanding ≤
    (n.system.get p.other).inner.maxOutstanding := hb.fits
  have hposted : n.arrived.get p ≤ n.posted p := Nat.le_add_right _ _
  have hunreceived : n.unreceived p = (n.system.get p.other).inner.localFreedCredits - r := by
    unfold unreceived
    rw [hreceived]
    omega
  have hoccupied : occupied (n.system.get p.other).inner.virtualIdxMap ≤
      (n.system.get p.other).inner.recvArrivalSeq -
        (n.system.get p.other).inner.localFreedCredits := hw.occupied_le
  have hslots : ∀ i, (n.system.get p.other).inner.localFreedCredits ≤ i →
      i < (n.system.get p.other).inner.recvArrivalSeq →
      i < (n.system.get p.other).inner.localFreedCredits +
        (n.system.get p.other).inner.maxOutstanding := by
    intro i _ hi
    omega
  refine ⟨?_, by omega, ?_, ⟨hle, by omega⟩, ?_, ?_, by omega, ?_⟩
  · rw [hunreceived, unreleased]
    omega
  · have hslot := hw.tracked.slot
    rw [hw.trackerCapacity] at hslot
    exact hslot
  · intro i j hi hij hj hmod
    have := CompletionTracker.mod_window_inj ⟨hi, hslots i hi (hij.trans hj)⟩
      ⟨hi.trans hij.le, hslots j (hi.trans hij.le) hj⟩ hmod
    omega
  · intro idx o l s hidx
    obtain ⟨hlo, hhi, hopen⟩ := hw.held idx o l s hidx
    have hflag := hw.tracked.flag s hlo (by rw [hw.trackerCapacity]; exact hslots s hlo hhi)
    rw [hw.trackerCapacity, hopen] at hflag
    exact ⟨hlo, hflag⟩
  · intro hwaiting
    exact findVirtIdx_isSome_of_occupied_lt hw.mapSize
      (show occupied (n.system.get p.other).inner.virtualIdxMap <
        (n.system.get p.other).inner.maxOutstanding by omega) hb.cursor

namespace CreditRingSystem

open CreditView

/-- A step other than an arrival is a sequence of moves of one peer. -/
inductive Effect (sys sys' : CreditRingSystem) (label : CreditRingLabel) : Prop
  | moves (q : Side) (hlabel : ∀ p, CreditHistory.arriving sys p label = 0)
      (hmoves : Moves (sys.get q).view (sys'.get q).view)
      (hother : (sys'.get q.other).view = (sys.get q.other).view)
  | arrive (q : Side) (wr : SendWr) (wire : List SendWr)
      (hwire : (sys.get q).view.wire = wr :: wire)
      (hself : CreditHistory.arriving sys q label = if wr.isCredit then 0 else 1)
      (hnone : CreditHistory.arriving sys q.other label = 0)
      (hsender : (sys'.get q).view = { (sys.get q).view with wire })
      (hreceiver : (sys'.get q.other).view =
        { (sys.get q.other).view with
          recvCq := (sys.get q.other).view.recvCq ++ [wr.arrival] })

variable {sys : CreditRingSystem} {label : CreditRingLabel}

theorem Effect.of_set {q : Side} {x : CreditEndpoint}
    (hlabel : ∀ p, CreditHistory.arriving sys p label = 0)
    (hmoves : Moves (sys.get q).view x.view) : Effect sys (sys.set q x) label := by
  refine .moves q hlabel ?_ ?_
  · rwa [Duplex.get_set_self]
  · rw [Duplex.get_set_other]

theorem step_effect {sys' : CreditRingSystem} (hstep : step sys label = some sys') :
    Effect sys sys' label := by
  cases label with
  | sendGather p bufs post drain =>
    cases hstep
    exact .of_set (fun _ => rfl)
      ((sys.get p).inner.sendGather_act (sys.get p).recvCq bufs post drain).moves
  | arrive p =>
    simp only [step] at hstep
    split at hstep
    · cases hstep
    rename_i wr wire hwire
    split at hstep
    · cases hstep
    simp only [Option.some.injEq] at hstep
    subst hstep
    have hne : ¬p = p.other := by cases p <;> simp [Side.other]
    refine .arrive p wr wire hwire ?_ ?_ ?_ ?_
    · simp only [CreditHistory.arriving, if_true, hwire]
    · simp only [CreditHistory.arriving, if_neg hne]
    · simp only [Duplex.get_set_of_other, Duplex.get_set_self]
      rfl
    · simp only [Duplex.get_set_self]
      rfl
  | complete =>
    obtain ⟨e, hcomplete, rfl⟩ := Option.map_eq_some_iff.mp hstep
    refine .of_set (fun _ => rfl) ?_
    unfold complete at hcomplete
    split at hcomplete
    · cases hcomplete
    split at hcomplete
    · simp only [Option.some.injEq] at hcomplete
      subst hcomplete
      exact .refl
    · cases hcomplete
  | pollSend p poll post =>
    cases hstep
    exact .of_set (fun _ => rfl)
      ((sys.get p).inner.pollSendCompletion_moves (sys.get p).recvCq _ poll post)
  | pollRecv p outLen drains post polls =>
    cases hstep
    exact .of_set (fun _ => rfl)
      ((sys.get p).inner.pollRecv_moves (sys.get p).recvCq outLen _ drains post polls)
  | repostRecv p =>
    obtain ⟨e, hrepost, rfl⟩ := Option.map_eq_some_iff.mp hstep
    unfold repostRecv at hrepost
    split at hrepost
    · obtain ⟨r, hr, rfl⟩ := Option.map_eq_some_iff.mp hrepost
      exact .of_set (fun _ => rfl) ((sys.get p).inner.repostRecv_act (sys.get p).recvCq hr).moves
    · cases hrepost

end CreditRingSystem

namespace CreditHistory

open CreditView

/-- The accounts of the direction from `p`. -/
def BalancedAt (n : CreditHistory) (p : Side) : Prop :=
  Balanced (n.arrived.get p) (n.system.get p).view (n.system.get p.other).view

variable {p : Side}

theorem step_balanced {n n' : CreditHistory} {label : CreditRingLabel} (hb : n.BalancedAt p)
    (hstep : n.step label = some n') : n'.BalancedAt p := by
  obtain ⟨_, hsys, rfl⟩ := Option.map_eq_some_iff.mp hstep
  have harrived : ({ a := n.arrived.a + arriving n.system .a label
                     b := n.arrived.b + arriving n.system .b label } : Duplex Nat).get p =
      n.arrived.get p + arriving n.system p label := by
    cases p <;> rfl
  unfold BalancedAt
  simp only [harrived]
  cases step_effect hsys with
  | moves q hlabel hmoves hother =>
    rw [hlabel p, add_zero]
    rcases Side.eq_or_eq_other q p with rfl | rfl
    · rw [hother]
      exact hb.sender hmoves
    · rw [Side.other_other, hother]
      unfold BalancedAt at hb
      rw [Side.other_other] at hb
      exact hb.receiver hmoves
  | arrive q _ _ hwire hself hnone hsender hreceiver =>
    rcases Side.eq_or_eq_other q p with rfl | rfl
    · rw [hself, hsender, hreceiver]
      exact hb.forth hwire
    · unfold BalancedAt at hb
      rw [Side.other_other] at hb
      rw [hnone, add_zero, hreceiver, Side.other_other, hsender]
      exact hb.back hwire

theorem balancedAt_build {config : CreditRingConfig} {deviceLimit : Side → Nat}
    {sys : CreditRingSystem} (hbuild : build config deviceLimit = some sys)
    (hle : maxOutstanding config (deviceLimit p) ≤
      maxOutstanding config (deviceLimit p.other))
    (hnarrow : maxOutstanding config (deviceLimit p) < 2 ^ 32) :
    (start sys).BalancedAt p := by
  unfold build at hbuild
  split at hbuild
  · cases hbuild
  rename_i c haccept
  simp only [Option.some.injEq] at hbuild
  have hget : ∀ q, sys.get q = new config c (deviceLimit q) := by
    intro q
    rw [← hbuild]
    cases q <;> rfl
  have hpos : 0 < maxOutstanding config (deviceLimit p.other) :=
    clampMaxOutstanding_pos _ _ _ _ _
  have hbase : (start sys).arrived.get p = 0 := by cases p <;> rfl
  refine ⟨0, [], fun _ => false, ?_⟩
  rw [hbase]
  simp only [start, hget]
  exact
    { narrow := hnarrow
      fits := hle
      credits := rfl
      received := rfl
      taken := le_rfl
      window := SlotWindow.new hpos
      cursor := hpos
      onTheWay := rfl
      increasing := pairwise_singleton _ _
      bounded := by simp [view, CreditRing.view]
      announcedLe := le_rfl }

/-- Whatever the posts do, the credits of a direction are conserved if the sender
has no more slots than the receiver. -/
theorem credits_conserved_of_slots_le {config : CreditRingConfig} {deviceLimit : Side → Nat}
    {sys : CreditRingSystem} {n : CreditHistory} {trace : List CreditRingLabel} {p : Side}
    (hbuild : build config deviceLimit = some sys) (hle : maxOutstanding config (deviceLimit p) ≤
      maxOutstanding config (deviceLimit p.other))
    (hnarrow : maxOutstanding config (deviceLimit p) < 2 ^ 32)
    (hrun : Machine.run step (start sys) trace = some n) : n.Conserved p := by
  apply conserved_of_balanced
  have hstep (n : CreditHistory) (l : CreditRingLabel) (n' : CreditHistory)
      (hb : n.BalancedAt p) (hl : step n l = some n') : n'.BalancedAt p :=
    step_balanced hb hl
  exact Machine.run_invariant_of_step hstep (balancedAt_build hbuild hle hnarrow) hrun

/-- The derived slot count on equal devices; the credit post of the release fails. -/
theorem credits_conserved_of_slots_le_pass : ∃ n, Machine.run step (start (smallStart none))
      (passMessage 4 ++ [.repostRecv .b 0 ⟨true, false⟩]) = some n ∧
      n.Conserved .a := by
  have hbuild : build (smallConfig none) (fun _ => 1024) = some (smallStart none) := rfl
  refine Machine.ends_imp (fun _ => True) (by decide +kernel) fun n hn _ => ?_
  exact credits_conserved_of_slots_le hbuild le_rfl (by decide) hn

/-- Peers of one configuration whose devices allow `a` three slots and `b` two. -/
def unevenStart : CreditRingSystem :=
  { a := new (smallConfig (some 3)) 8 1024
    b := new (smallConfig (some 3)) 8 4 }

/-- Device limits of `unevenStart`. -/
def unevenLimit : Side → Nat
  | .a => 1024
  | .b => 4

/-- Three messages of two bytes; `b` releases the second and then the third, which
came into the slot of the first. -/
def reusedSlot : List CreditRingLabel :=
  passMessage 2 ++ passMessage 2 ++ [.repostRecv .b 1 ⟨true, true⟩] ++ passMessage 2 ++
    [.repostRecv .b 1 ⟨true, true⟩]

/-- With fewer slots at the receiver a tracker slot is reused while its message is
held, and the release of the later message frees the earlier one. -/
theorem reusedSlot_frees_held : build (smallConfig (some 3)) unevenLimit =
        some unevenStart ∧
      ∃ n, Machine.run step (start unevenStart) reusedSlot = some n ∧
        (n.system.get .b).inner.virtualIdxMap[0]? = some (some (0, 2, 0)) ∧
        (n.system.get .b).inner.localFreedCredits = 2 ∧ ¬n.Conserved .a := by
  obtain ⟨n, hn, hslot, hfreed⟩ : ∃ n, Machine.run step (start unevenStart) reusedSlot = some n ∧
      (n.system.get .b).inner.virtualIdxMap[0]? = some (some (0, 2, 0)) ∧
      (n.system.get .b).inner.localFreedCredits = 2 := by
    decide +kernel
  refine ⟨rfl, n, hn, hslot, hfreed, ?_⟩
  intro hconserved
  have hheld := (hconserved.held 0 0 2 0 hslot).1
  change (n.system.get .b).inner.localFreedCredits ≤ 0 at hheld
  omega

end CreditHistory

end RdmaIo
