/-
Credit-based flow control between the two ends of a reliable in-order link.

Each end announces once how many messages it can take.  The other end spends one
credit of that announcement for each message and gets credits back as messages
are consumed.  The bookkeeping of both ends is tied to what is on the wires by
equations, so that the next packet of a wire is one its receiver can accept.
-/
import Mathlib
import RdmaIo.Lib.Duplex

namespace CreditLink

open List

universe u

variable {α : Type u}

inductive Packet (α : Type u) where
  | hello (capacity : Nat)
  | data (body : α)
  | credit (credits : Nat)

namespace Packet

def hellos : Packet α → Nat
  | hello _ => 1
  | data _ | credit _ => 0

def datas : Packet α → Nat
  | data _ => 1
  | hello _ | credit _ => 0

def credits : Packet α → Nat
  | credit n => n
  | hello _ | data _ => 0

end Packet

open Packet (hellos datas)

/-- What an end knows: its own announcement, the credits of the other end that
it may spend, and the messages it has taken and not yet given back. -/
@[ext] structure Peer where
  /-- How many messages it can take. -/
  capacity : Nat
  /-- The announcement was sent. -/
  announced : Bool
  /-- The sending of the announcement was confirmed. -/
  confirmed : Bool
  /-- Announcements of the other end, heard and not yet granted. -/
  heard : List Nat
  granted : Bool
  /-- The credits granted by the other end. -/
  limit : Nat
  available : Nat
  /-- Credits set aside for messages not yet sent. -/
  reserved : Nat
  /-- Credits spent and not given back. -/
  inFlight : Nat
  /-- Messages taken whose credit is not on its way back. -/
  owed : Nat

/-- Messages flow once both announcements have taken effect. -/
def Peer.opened (p : Peer) : Bool :=
  p.confirmed && p.granted

/-- One move of an end: the packets it takes off its incoming wire and the
packets it sends. -/
inductive Move : Peer → List (Packet α) → List (Packet α) → Peer → Prop
  | idle (p : Peer) : Move p [] [] p
  | announce (p : Peer) (hfirst : p.announced = false) :
      Move p [] [.hello p.capacity] { p with announced := true }
  | confirm (p : Peer) (hannounced : p.announced = true) :
      Move p [] [] { p with confirmed := true }
  | hear (p : Peer) (capacity : Nat) :
      Move p [.hello capacity] [] { p with heard := p.heard ++ [capacity] }
  | grant (p : Peer) {capacity : Nat} {rest : List Nat}
      (hheard : p.heard = capacity :: rest) :
      Move p [] []
        { p with
          heard := rest
          granted := true
          limit := capacity
          available := p.available + capacity }
  | reserve (p : Peer) (hopened : p.opened = true) (havailable : 0 < p.available) :
      Move p [] [] { p with available := p.available - 1, reserved := p.reserved + 1 }
  | release (p : Peer) (hreserved : 0 < p.reserved) :
      Move p [] [] { p with available := p.available + 1, reserved := p.reserved - 1 }
  | send (p : Peer) (body : α) (hreserved : 0 < p.reserved) :
      Move p [] [.data body] { p with reserved := p.reserved - 1, inFlight := p.inFlight + 1 }
  | take (p : Peer) (body : α) (hopened : p.opened = true) :
      Move p [.data body] [] { p with owed := p.owed + 1 }
  | giveBack (p : Peer) {credits : Nat} (hopened : p.opened = true)
      (hpos : 0 < credits) (howed : credits ≤ p.owed) :
      Move p [] [.credit credits] { p with owed := p.owed - credits }
  | refill (p : Peer) (credits : Nat) :
      Move p [.credit credits] []
        { p with
          inFlight := p.inFlight - credits
          available := p.available + credits }

/-- The packets of one kind on a wire. -/
def count (weight : Packet α → Nat) (wire : List (Packet α)) : Nat :=
  (wire.map weight).sum

section Count

variable (weight : Packet α → Nat)

@[simp] theorem count_nil : count weight [] = 0 := rfl

@[simp] theorem count_cons (x : Packet α) (wire : List (Packet α)) :
    count weight (x :: wire) = weight x + count weight wire := by
  simp [count]

@[simp] theorem count_append (xs ys : List (Packet α)) :
    count weight (xs ++ ys) = count weight xs + count weight ys := by
  simp [count]

end Count

/-- What an end has put on its wire: one announcement, before anything else, and
no empty refunds. -/
structure Sent (p : Peer) (wire : List (Packet α)) : Prop where
  leading : count Packet.hellos wire.tail = 0
  capacity : ∀ c, .hello c ∈ wire → c = p.capacity
  silent : p.announced = false → wire = []
  positive : ∀ n, .credit n ∈ wire → 0 < n

/-- The state of the traffic from `p` to `q`: `wire` holds what `p` has sent and
`q` not taken, `back` what `q` has sent and `p` not taken. -/
structure Flow (p q : Peer) (wire back : List (Packet α)) : Prop extends Sent p wire where
  /-- Every spent credit is with a message, with its consumer, or on its way
  back. -/
  inFlight : count Packet.datas wire + q.owed + count Packet.credits back = p.inFlight
  balance : p.available + p.reserved + p.inFlight = p.limit
  /-- The one announcement is on the wire, heard, or granted. -/
  hello : count Packet.hellos wire + q.heard.length + q.granted.toNat = p.announced.toNat
  heardCapacity : ∀ c ∈ q.heard, c = p.capacity
  limit : q.limit = if q.granted then p.capacity else 0
  confirmed : p.confirmed = true → p.announced = true
  closed : p.opened = false → p.reserved = 0 ∧ p.inFlight = 0 ∧ p.owed = 0

namespace Sent

variable {p : Peer} {wire : List (Packet α)}

/-- A packet other than an announcement goes behind those on the wire. -/
theorem push (h : Sent p wire) (hannounced : p.announced = true) {x : Packet α}
    (hx : x.hellos = 0) (hpos : ∀ n, x = .credit n → 0 < n) : Sent p (wire ++ [x]) where
  leading := by
    cases wire with
    | nil => rfl
    | cons y ys =>
      have hleading : count hellos ys = 0 := h.leading
      simp [hleading, hx]
  capacity := by
    intro c hc
    rcases mem_append.mp hc with hc | hc
    · exact h.capacity c hc
    · obtain rfl := mem_singleton.mp hc
      cases hx
  silent := fun hsilent => nomatch hannounced.symm.trans hsilent
  positive := by
    intro n hn
    rcases mem_append.mp hn with hn | hn
    · exact h.positive n hn
    · exact hpos n (mem_singleton.mp hn).symm

/-- The receiver takes the first packet. -/
theorem rest {x : Packet α} (h : Sent p (x :: wire)) : Sent p wire where
  leading := by
    have hleading : count hellos wire = 0 := h.leading
    cases wire with
    | nil => rfl
    | cons y ys =>
      rw [count_cons] at hleading
      exact Nat.eq_zero_of_add_eq_zero_left hleading
  capacity := fun c hc => h.capacity c (mem_cons_of_mem _ hc)
  silent := fun hsilent => nomatch h.silent hsilent
  positive := fun n hn => h.positive n (mem_cons_of_mem _ hn)

end Sent

namespace Flow

variable {p p' q : Peer} {wire back taken sent : List (Packet α)}

/-- An end with something in flight or set aside has announced itself. -/
theorem announced_of_opened (h : Flow p q wire back) (hopened : p.opened = true) :
    p.announced = true := by
  apply h.confirmed
  simp only [Peer.opened, Bool.and_eq_true] at hopened
  exact hopened.1

theorem opened_of_reserved (h : Flow p q wire back) (hreserved : 0 < p.reserved) :
    p.opened = true := by
  by_contra hclosed
  have := (h.closed (Bool.eq_false_iff.mpr hclosed)).1
  omega

/-- The announcement in hand is the only one. -/
theorem not_granted_of_heard (h : Flow p q wire back) {c : Nat} {rest : List Nat}
    (hheard : q.heard = c :: rest) : q.granted = false ∧ rest = [] := by
  have hhello := h.hello
  have hle := Bool.toNat_le p.announced
  rw [hheard, length_cons] at hhello
  constructor
  · by_contra hgranted
    rw [Bool.not_eq_false] at hgranted
    simp only [hgranted, Bool.toNat_true] at hhello
    omega
  · apply eq_nil_of_length_eq_zero
    omega

/-- The sender's moves; `hrev` is the traffic in the other direction. -/
theorem sender (h : Flow p q wire (taken ++ back)) (hrev : Flow q p (taken ++ back) wire)
    (hmove : Move p taken sent p') : Flow p' q (wire ++ sent) back := by
  have hinFlight := h.inFlight
  have hbalance := h.balance
  cases hmove with
  | idle => simpa using h
  | announce hfirst =>
    obtain rfl := h.silent hfirst
    have hhello := h.hello
    simp only [hfirst, count_nil, Bool.toNat_false] at hhello
    refine { h with
      inFlight := hinFlight
      hello := ?_
      leading := rfl
      capacity := by simp
      silent := nofun
      confirmed := fun _ => rfl
      positive := by simp }
    simp only [nil_append, count_cons, count_nil, hellos, Bool.toNat_true]
    omega
  | confirm hannounced =>
    rw [append_nil]
    refine { h with confirmed := fun _ => hannounced, closed := ?_ }
    intro hclosed
    apply h.closed
    simp only [Peer.opened, Bool.true_and] at hclosed ⊢
    simp [hclosed]
  | hear =>
    rw [append_nil]
    exact { h with inFlight := by simpa [Packet.credits] using hinFlight }
  | @grant c rest hheard =>
    obtain ⟨hgranted, -⟩ := hrev.not_granted_of_heard hheard
    have hlimit : p.limit = 0 := by rw [hrev.limit, hgranted]; rfl
    rw [append_nil]
    refine { h with balance := ?_, closed := ?_ }
    · change p.available + c + p.reserved + p.inFlight = c
      omega
    · intro _
      apply h.closed
      simp [Peer.opened, hgranted]
  | reserve hopened havailable =>
    rw [append_nil]
    refine { h with balance := ?_, closed := ?_ }
    · change p.available - 1 + (p.reserved + 1) + p.inFlight = p.limit
      omega
    · intro hclosed
      exact nomatch hopened.symm.trans hclosed
  | release hreserved =>
    have hopened := h.opened_of_reserved hreserved
    rw [append_nil]
    refine { h with balance := ?_, closed := ?_ }
    · change p.available + 1 + (p.reserved - 1) + p.inFlight = p.limit
      omega
    · intro hclosed
      exact nomatch hopened.symm.trans hclosed
  | send body hreserved =>
    have hopened := h.opened_of_reserved hreserved
    have hsent := h.toSent.push (h.announced_of_opened hopened) (x := .data body) rfl (nofun)
    rw [nil_append] at hinFlight
    refine { hsent, h with inFlight := ?_, balance := ?_, hello := ?_, closed := ?_ }
    · simp only [count_append, count_cons, count_nil, datas]
      omega
    · change p.available + (p.reserved - 1) + (p.inFlight + 1) = p.limit
      omega
    · simpa [hellos] using h.hello
    · intro hclosed
      exact nomatch hopened.symm.trans hclosed
  | take body hopened =>
    rw [append_nil]
    refine { h with inFlight := ?_, closed := ?_ }
    · simpa [Packet.credits] using hinFlight
    · intro hclosed
      exact nomatch hopened.symm.trans hclosed
  | @giveBack credits hopened hpos howed =>
    have hsent := h.toSent.push (h.announced_of_opened hopened)
      (x := .credit credits) rfl (fun n hn => Packet.credit.inj hn ▸ hpos)
    refine { hsent, h with inFlight := ?_, hello := ?_, closed := ?_ }
    · simpa [datas] using hinFlight
    · simpa [hellos] using h.hello
    · intro hclosed
      exact nomatch hopened.symm.trans hclosed
  | refill credits =>
    simp only [cons_append, nil_append, count_cons, Packet.credits] at hinFlight
    rw [append_nil]
    refine { h with inFlight := ?_, balance := ?_, closed := ?_ }
    · change _ = p.inFlight - credits
      omega
    · change p.available + credits + p.reserved + (p.inFlight - credits) = p.limit
      omega
    · intro hclosed
      have := h.closed hclosed
      change p.reserved = 0 ∧ p.inFlight - credits = 0 ∧ p.owed = 0
      omega

/-- The receiver's moves. -/
theorem receiver {q' : Peer} (h : Flow p q (taken ++ wire) back)
    (hmove : Move q taken sent q') : Flow p q' wire (back ++ sent) := by
  have hinFlight := h.inFlight
  have hhello := h.hello
  cases hmove with
  | idle => simpa using h
  | announce | send =>
    exact { h with inFlight := by simpa [Packet.credits] using hinFlight }
  | confirm | reserve | release =>
    rw [append_nil]
    exact { h with }
  | hear c =>
    simp only [cons_append, nil_append, count_cons, hellos, datas] at hinFlight hhello
    rw [append_nil]
    refine { h.toSent.rest, h with inFlight := ?_, hello := ?_, heardCapacity := ?_ }
    · rw [← hinFlight, zero_add]
    · change _ + (q.heard ++ [c]).length + q.granted.toNat = _
      rw [length_append, length_singleton]
      omega
    · exact forall_mem_append.mpr ⟨h.heardCapacity,
        forall_mem_singleton.mpr (h.capacity c mem_cons_self)⟩
  | @grant c _ hheard =>
    obtain ⟨hgranted, rfl⟩ := h.not_granted_of_heard hheard
    rw [append_nil]
    refine { h with hello := ?_, heardCapacity := ?_, limit := ?_ }
    · simpa [hheard, hgranted] using hhello
    · intro d hd
      cases hd
    · exact h.heardCapacity c (by rw [hheard]; exact mem_cons_self)
  | take =>
    simp only [cons_append, nil_append, count_cons, hellos, datas] at hinFlight hhello
    rw [append_nil]
    refine { h.toSent.rest, h with inFlight := ?_, hello := ?_ }
    · change _ + (q.owed + 1) + _ = _
      omega
    · rw [← hhello, zero_add]
  | @giveBack =>
    refine { h with inFlight := ?_ }
    simp only [nil_append, count_append, count_cons, count_nil, Packet.credits] at hinFlight ⊢
    omega
  | refill =>
    simp only [cons_append, nil_append, count_cons, hellos, datas] at hinFlight hhello
    rw [append_nil]
    refine { h.toSent.rest, h with inFlight := ?_, hello := ?_ }
    · rw [← hinFlight, zero_add]
    · rw [← hhello, zero_add]

end Flow

/-- An end that has neither sent nor taken anything. -/
def Peer.fresh (capacity : Nat) : Peer where
  capacity := capacity
  announced := false
  confirmed := false
  heard := []
  granted := false
  limit := 0
  available := 0
  reserved := 0
  inFlight := 0
  owed := 0

theorem Flow.fresh (c d : Nat) : Flow (α := α) (Peer.fresh c) (Peer.fresh d) [] [] where
  leading := rfl
  capacity := nofun
  silent := fun _ => rfl
  positive := nofun
  inFlight := rfl
  balance := rfl
  hello := rfl
  heardCapacity := nofun
  limit := rfl
  confirmed := nofun
  closed := fun _ => ⟨rfl, rfl, rfl⟩

/-- A packet that an end can take without breaking its own bookkeeping. -/
def Peer.Accepts (p : Peer) : Packet α → Prop
  | .hello _ => p.heard = [] ∧ p.granted = false
  | .data _ => True
  | .credit n =>
    p.opened = true ∧ 0 < n ∧ n ≤ p.inFlight ∧ p.available + n ≤ p.limit

/-- Both ends with the wires between them; `wires.get s` leads away from `s`. -/
structure Link (α : Type u) where
  peers : Duplex Peer
  wires : Duplex (List (Packet α))

namespace Link

/-- One end moves. -/
inductive Step (l : Link α) : Link α → Prop
  | move (s : Side) {p : Peer} {taken sent rest : List (Packet α)}
      (hmove : Move (l.peers.get s) taken sent p)
      (htaken : l.wires.get s.other = taken ++ rest) :
      Step l
        { peers := l.peers.set s p
          wires := (l.wires.set s.other rest).set s (l.wires.get s ++ sent) }

/-- The traffic is sound in both directions. -/
def Sound (l : Link α) : Prop :=
  ∀ s, Flow (l.peers.get s) (l.peers.get s.other) (l.wires.get s) (l.wires.get s.other)

variable {l l' : Link α}

theorem Sound.step (h : l.Sound) (hstep : l.Step l') : l'.Sound := by
  cases hstep with
  | @move s _ _ _ _ hmove htaken =>
    have hout := h s
    have hin := h s.other
    rw [Side.other_other] at hin
    rw [htaken] at hout hin
    refine Duplex.forall_side s ?_ ?_
    · simpa using hout.sender hin hmove
    · simpa using hin.receiver hmove

/-- The next packet of a wire is one that its receiver can take. -/
theorem Sound.accepts (h : l.Sound) {s : Side} {x : Packet α} {rest : List (Packet α)}
    (hwire : l.wires.get s.other = x :: rest) : (l.peers.get s).Accepts x := by
  have hout := h s
  have hin := h s.other
  rw [Side.other_other] at hin
  rw [hwire] at hout hin
  cases x with
  | hello =>
    have hhello := hin.hello
    have hle := Bool.toNat_le (l.peers.get s.other).announced
    simp only [count_cons, hellos] at hhello
    constructor
    · apply eq_nil_of_length_eq_zero
      omega
    · apply Bool.toNat_eq_zero.mp
      omega
  | data => trivial
  | credit n =>
    have hpos := hin.positive n mem_cons_self
    have hinFlight := hout.inFlight
    have hbalance := hout.balance
    simp only [count_cons, Packet.credits] at hinFlight
    refine ⟨?_, hpos, by omega, by omega⟩
    by_contra hclosed
    have := (hout.closed (Bool.eq_false_iff.mpr hclosed)).2.1
    omega

end Link

end CreditLink
