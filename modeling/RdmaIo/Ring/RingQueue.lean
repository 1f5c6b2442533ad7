/-
The ring as the queue of its reservations.

Reserves go to the back and releases free the oldest, so the live reservations lie one after
another from the head to the tail, each behind the padding it may need.
-/
import RdmaIo.Ring.Backpressure

namespace RdmaIo

theorem RingBuffer.InRing.used_lt {r : RingBuffer} (h : r.InRing) : r.used < r.capacity := by
  have := h.head_lt
  have := h.tail_lt
  unfold used
  split <;> omega

/-- A live reservation of the ring. -/
structure RingRange where
  offset : Nat
  len : Nat
  padding : Nat
deriving Repr, DecidableEq

/-- The ring with its live reservations, the oldest first. -/
structure RingQueue where
  ring : RingBuffer
  live : List RingRange
deriving Repr, DecidableEq

inductive RingLabel where
  | reserve (len : Nat)
  | release
deriving Repr, DecidableEq

namespace RingRange

/-- The bytes that the release of the range frees. -/
def size (x : RingRange) : Nat := x.padding + x.len

def Disjoint (x y : RingRange) : Prop :=
  ∀ b, ¬((x.offset ≤ b ∧ b < x.offset + x.len) ∧ y.offset ≤ b ∧ b < y.offset + y.len)

/-- The ranges follow one another from the position `p` on. -/
def Laid (c p : Nat) : List RingRange → Prop
  | [] => True
  | x :: live =>
    (x.offset = (p + x.padding) % c ∧ x.offset + x.len ≤ c) ∧ Laid c (p + x.size) live

variable {c p : Nat} {x : RingRange} {live : List RingRange}

theorem Laid.append (h : Laid c p live)
    (hoffset : x.offset = (p + (live.map size).sum + x.padding) % c)
    (hend : x.offset + x.len ≤ c) : Laid c p (live ++ [x]) := by
  induction live generalizing p with
  | nil => exact ⟨⟨hoffset, hend⟩, trivial⟩
  | cons y _ ih =>
    refine ⟨h.1, ih h.2 ?_⟩
    rw [hoffset, List.map_cons, List.sum_cons, add_assoc p y.size]

/-- A range that ends before the others begin shares no byte with them. -/
theorem Laid.disjoint {q : Nat} (h : Laid c p live) (hx : x.offset = q % c)
    (hbefore : q + x.len ≤ p) (hroom : p + (live.map size).sum ≤ q + c) :
    ∀ y ∈ live, x.Disjoint y := by
  induction live generalizing p with
  | nil => exact List.forall_mem_nil _
  | cons y _ ih =>
    rw [List.map_cons, List.sum_cons] at hroom
    obtain ⟨⟨hy, -⟩, hrest⟩ := h
    rw [List.forall_mem_cons]
    refine ⟨fun b hb => ?_, ih hrest (by omega) (by omega)⟩
    rw [hx, hy] at hb
    refine RingLog.mod_ranges_disjoint (y := p + y.padding) (by omega) ?_ hb.1 hb.2
    simp only [size] at hroom
    omega

theorem Laid.pairwise (h : Laid c p live) (hroom : (live.map size).sum ≤ c) :
    live.Pairwise Disjoint ∧ ∀ x ∈ live, x.offset + x.len ≤ c := by
  induction live generalizing p with
  | nil => exact ⟨.nil, List.forall_mem_nil _⟩
  | cons x _ ih =>
    rw [List.map_cons, List.sum_cons] at hroom
    obtain ⟨⟨hx, hend⟩, hrest⟩ := h
    obtain ⟨hpairwise, hinside⟩ := ih hrest (by omega)
    refine ⟨.cons (hrest.disjoint hx ?_ ?_) hpairwise, List.forall_mem_cons.mpr ⟨hend, hinside⟩⟩
    · exact le_of_eq (add_assoc p x.padding x.len)
    · omega

end RingRange

namespace RingQueue

open RingRange (Laid size)

/-- A refused reserve changes nothing; a release frees the oldest reservation. -/
def step (q : RingQueue) : RingLabel → Option RingQueue
  | .reserve len =>
    match q.ring.reserve len with
    | none => some q
    | some (ring, offset, padding) =>
      some ⟨ring, q.live ++ [⟨offset, len, padding⟩]⟩
  | .release =>
    match q.live with
    | [] => none
    | x :: live => some ⟨q.ring.release x.size, live⟩

/-- The live reservations lie one after another from the head to the tail. -/
structure Represents (c : Nat) (q : RingQueue) : Prop where
  capacity : q.ring.capacity = c
  inRing : q.ring.InRing
  room : (q.live.map size).sum < c
  laid : ∃ p, q.ring.head = p % c ∧ q.ring.tail = (p + (q.live.map size).sum) % c ∧ Laid c p q.live

variable {c : Nat} {q q' : RingQueue}

theorem Represents.used (h : q.Represents c) : q.ring.used = (q.live.map size).sum := by
  obtain ⟨p, hhead, htail, -⟩ := h.laid
  have hused := RingLog.used_mod (Nat.le_add_right p _) (Nat.add_lt_add_left h.room p)
  rw [Nat.add_sub_cancel_left, ← hhead, ← htail, ← h.capacity] at hused
  exact hused

theorem Represents.reserve (h : q.Represents c) {ring : RingBuffer} {len offset padding : Nat}
    (hreserve : q.ring.reserve len = some (ring, offset, padding)) :
    Represents c ⟨ring, q.live ++ [⟨offset, len, padding⟩]⟩ := by
  obtain ⟨p, hhead, htail, hlaid⟩ := h.laid
  obtain ⟨-, hin, hcapacity, hhead', hplace⟩ := RingBuffer.reserve_some h.inRing hreserve
  rw [h.capacity] at hcapacity hplace
  have hused := RingBuffer.used_reserve h.inRing hreserve
  have hlt := hin.used_lt
  have htail_lt := h.inRing.tail_lt
  rw [hused, h.used, hcapacity] at hlt
  rw [h.capacity] at htail_lt
  have hsum : ((q.live ++ [(⟨offset, len, padding⟩ : RingRange)]).map size).sum =
      (q.live.map size).sum + (padding + len) := by
    simp [size]
  refine ⟨hcapacity, hin, hsum ▸ hlt, p, hhead'.trans hhead, ?_⟩
  rw [hsum, ← add_assoc, ← add_assoc]
  -- behind the padding the message begins at the start of the ring
  have hoffset : offset = (p + (q.live.map size).sum + padding) % c ∧
      offset + len ≤ c ∧ ring.tail = (offset + len) % c := by
    rcases hplace with ⟨rfl, rfl, hfit, hnext⟩ | ⟨-, rfl, rfl, -, hfit, rfl⟩
    · exact ⟨htail, hfit, hnext⟩
    · refine ⟨?_, by omega, by rw [zero_add, Nat.mod_eq_of_lt hfit]⟩
      rw [htail, ← Nat.mod_add_mod, ← htail, Nat.add_sub_cancel' (le_of_lt htail_lt),
        Nat.mod_self]
  obtain ⟨hoffset, hend, hnext⟩ := hoffset
  refine ⟨?_, hlaid.append hoffset hend⟩
  rw [hnext, hoffset, Nat.mod_add_mod]

theorem Represents.step {label : RingLabel} (h : q.Represents c)
    (hstep : q.step label = some q') : q'.Represents c := by
  cases label with
  | reserve =>
    simp only [RingQueue.step] at hstep
    split at hstep
    · exact Option.some.inj hstep ▸ h
    next hreserve => exact Option.some.inj hstep ▸ h.reserve hreserve
  | release =>
    simp only [RingQueue.step] at hstep
    split at hstep
    · cases hstep
    next x _ hlive =>
      cases hstep
      obtain ⟨p, hhead, htail, hlaid⟩ := h.laid
      have hroom := h.room
      rw [hlive, List.map_cons, List.sum_cons] at hroom htail
      rw [hlive] at hlaid
      refine ⟨h.capacity, h.inRing.release _, lt_of_le_of_lt (Nat.le_add_left _ _) hroom,
        p + x.size, ?_, ?_, hlaid.2⟩
      · simp only [RingBuffer.release, h.capacity, hhead, Nat.mod_add_mod]
      · rw [add_assoc]
        exact htail

/-- After any sequence of reserves and releases the live reservations are disjoint and inside
the ring, the bytes in use are theirs, and a refused reserve changes nothing.  An empty ring
takes every message of at most half its size, wherever it stands. -/
theorem ring_represents_queue {c : Nat} (hc : 2 ≤ c) {trace : List RingLabel}
    (hrun : Machine.run step ⟨.new c, []⟩ trace = some q) :
    q.live.Pairwise RingRange.Disjoint ∧ (∀ x ∈ q.live, x.offset + x.len ≤ c) ∧
      q.ring.used = (q.live.map size).sum ∧ q.ring.used ≤ c - 1 ∧
      (∀ len, q.ring.reserve len = none → q.step (.reserve len) = some q) ∧
      ∀ offset < c, ∀ len, 0 < len → 2 * len ≤ c →
        (⟨c, offset, offset⟩ : RingBuffer).reserve len ≠ none := by
  have hpos : 0 < c := lt_of_lt_of_le Nat.two_pos hc
  have hinit : Represents c ⟨.new c, []⟩ :=
    ⟨rfl, ⟨hpos, hpos⟩, hpos, 0, (Nat.zero_mod c).symm, (Nat.zero_mod c).symm, trivial⟩
  have h : q.Represents c := Machine.run_invariant_of_step (fun _ _ _ h => h.step) hinit hrun
  obtain ⟨p, -, -, hlaid⟩ := h.laid
  have hroom := h.room
  obtain ⟨hpairwise, hinside⟩ := hlaid.pairwise (le_of_lt hroom)
  refine ⟨hpairwise, hinside, h.used, ?_, fun len hnone => ?_, fun offset hlt len hpos hhalf => ?_⟩
  · rw [h.used]
    omega
  · simp only [step, hnone]
  · exact RingBuffer.reserve_of_used_eq_zero ⟨hlt, hlt⟩ (by simp [RingBuffer.used]) hpos hhalf

/-- The second message leaves a padding of one byte and begins at the start again. -/
theorem ring_represents_queue_wrapped :
    ∃ q, Machine.run step ⟨.new 4, []⟩ [.reserve 3, .reserve 1, .release, .reserve 2] =
      some q ∧ q.live = [⟨0, 2, 1⟩] ∧ q.ring.used = (q.live.map size).sum := by
  refine Machine.ends_imp (·.live = [⟨0, 2, 1⟩]) (by decide) fun q hrun hlive => ?_
  exact ⟨hlive, (ring_represents_queue (by decide) hrun).2.2.1⟩

/-- A reserve of no bytes is refused, also by an empty ring. -/
theorem empty_ring_refuses_nothing :
    2 * 0 ≤ 2 ∧ (⟨2, 0, 0⟩ : RingBuffer).used = 0 ∧ (⟨2, 0, 0⟩ : RingBuffer).reserve 0 = none := by
  decide

end RingQueue

end RdmaIo
