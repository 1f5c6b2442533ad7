/-
The helpers that both ring transports share (`transport_common.rs`): the
wrap-around `RingBuffer`, the chase-forward `CompletionTracker`, the packing of
a message into a Write immediate, the slot-count arithmetic and the gather.

`RingBuffer` models the positions of a ring; the registered memory behind it is
not part of the state.
-/
import RdmaIo.Lib.RingLog

namespace RdmaIo

/-- Positions of a wrap-around ring of `capacity` bytes. -/
structure RingBuffer where
  capacity : Nat
  head : Nat
  tail : Nat
deriving Repr, DecidableEq

namespace RingBuffer

def new (capacity : Nat) : RingBuffer :=
  { capacity, head := 0, tail := 0 }

variable (r : RingBuffer)

/-- Bytes currently occupied. -/
def used : Nat :=
  if r.tail ≥ r.head then r.tail - r.head
  else r.capacity - r.head + r.tail

/-- Total free space: one byte stays unused to tell full from empty. -/
def available : Nat :=
  r.capacity - r.used - 1

/-- Contiguous free space at the tail, before the wrap. -/
def contiguousFree : Nat :=
  if r.tail ≥ r.head then
    if r.head = 0 then r.capacity - r.tail - 1 else r.capacity - r.tail
  else r.head - r.tail - 1

variable (len : Nat)

/-- Reserve `len` bytes: the ring afterwards, the offset and the padding. -/
def reserve : Option (RingBuffer × Nat × Nat) :=
  if len = 0 ∨ len > r.available then none
  else if len ≤ r.contiguousFree then
    some ({ r with tail := (r.tail + len) % r.capacity }, r.tail, 0)
  else
    let padding := r.capacity - r.tail
    if padding + len > r.available + 1 then none
    else if r.head ≤ len then none
    else some ({ r with tail := len }, 0, padding)

/-- Advance the head by `len` bytes. -/
def release : RingBuffer :=
  { r with head := (r.head + len) % r.capacity }

@[simp] theorem release_capacity : (r.release len).capacity = r.capacity := rfl

@[simp] theorem release_tail : (r.release len).tail = r.tail := rfl

/-- Both positions lie inside the ring. -/
structure InRing (r : RingBuffer) : Prop where
  head_lt : r.head < r.capacity
  tail_lt : r.tail < r.capacity

variable {r r' : RingBuffer} {len offset padding : Nat}

theorem InRing.release (h : r.InRing) (len : Nat) : (r.release len).InRing :=
  ⟨Nat.mod_lt _ (Nat.zero_lt_of_lt h.head_lt), h.tail_lt⟩

/-- What a reserve that succeeds on a well-placed ring hands out: either the
bytes at the tail, without crossing the end, or the bytes from 0 on after a
padding that fills the ring to its end and is shorter than the message. -/
theorem reserve_some (hin : r.InRing) (h : r.reserve len = some (r', offset, padding)) :
    0 < len ∧ r'.InRing ∧ r'.capacity = r.capacity ∧ r'.head = r.head ∧
      (padding = 0 ∧ offset = r.tail ∧ r.tail + len ≤ r.capacity ∧
          r'.tail = (r.tail + len) % r.capacity ∨
        0 < padding ∧ padding = r.capacity - r.tail ∧ offset = 0 ∧
          padding < len ∧ len < r.capacity ∧ r'.tail = len) := by
  have hhead := hin.head_lt
  have htail := hin.tail_lt
  unfold reserve at h
  split at h
  · cases h
  rename_i hlen
  split at h
  · rename_i hcontig
    simp only [Option.some.injEq, Prod.mk.injEq] at h
    obtain ⟨rfl, rfl, rfl⟩ := h
    refine ⟨by omega, ⟨hhead, Nat.mod_lt _ (by omega)⟩, rfl, rfl, .inl ⟨rfl, rfl, ?_, rfl⟩⟩
    unfold contiguousFree at hcontig
    split at hcontig
    · split at hcontig <;> omega
    · omega
  · rename_i hcontig
    simp only at h
    split at h
    · cases h
    split at h
    · cases h
    rename_i hroom
    simp only [Option.some.injEq, Prod.mk.injEq] at h
    obtain ⟨rfl, rfl, rfl⟩ := h
    refine ⟨by omega, ⟨hhead, by simp only; omega⟩, rfl, rfl,
      .inr ⟨by omega, rfl, rfl, ?_, by omega, rfl⟩⟩
    -- A wrap is only needed with the tail at or after a non-zero head.
    unfold contiguousFree at hcontig
    unfold available used at hlen
    split at hcontig
    · split at hcontig <;> omega
    · rename_i hwrapped
      rw [if_neg hwrapped] at hlen
      omega

/-- The rollback of a wrapping reserve: the tail goes back to where the padding
began. -/
theorem rollback (hin : r.InRing) (h : r.reserve len = some (r', offset, padding))
    (hpad : 0 < padding) :
    { r' with tail := if offset = 0 then r'.capacity - padding else offset } = r := by
  obtain ⟨-, -, hcap, hhead, hplace⟩ := reserve_some hin h
  have htail := hin.tail_lt
  rcases hplace with ⟨hzero, -⟩ | ⟨-, hpad', hoff, -⟩
  · omega
  · rw [if_pos hoff, hcap, hpad', Nat.sub_sub_self (le_of_lt htail)]
    cases r'
    simp only at hcap hhead
    rw [hcap, hhead]

/-- Both positions are inside the ring, or the ring is empty and nothing is reserved. -/
def Placed (r : RingBuffer) : Prop :=
  r.InRing ∨ r.capacity = 0

theorem Placed.new (capacity : Nat) : (RingBuffer.new capacity).Placed := by
  rcases Nat.eq_zero_or_pos capacity with hzero | hpos
  · exact .inr hzero
  · exact .inl ⟨hpos, hpos⟩

theorem Placed.release (h : r.Placed) (len : Nat) : (r.release len).Placed :=
  h.imp (fun hin => hin.release len) id

theorem Placed.reserve (h : r.Placed) (hreserve : r.reserve len = some (r', offset, padding)) :
    r.InRing ∧ r'.InRing ∧ padding ≤ len := by
  rcases h with hin | hzero
  · obtain ⟨-, hin', -, -, _⟩ := reserve_some hin hreserve
    exact ⟨hin, hin', by omega⟩
  · have hnone : r.available = 0 := by simp [available, hzero]
    unfold RingBuffer.reserve at hreserve
    rw [if_pos (by omega)] at hreserve
    cases hreserve

end RingBuffer

/-- Slots released out of order, passed once every earlier slot is released. -/
structure CompletionTracker where
  released : List Bool
  headSlot : Nat
  capacity : Nat
deriving Repr, DecidableEq

namespace CompletionTracker

def new (capacity : Nat) : CompletionTracker :=
  { released := List.replicate capacity false, headSlot := 0, capacity }

/-- The `while released[head_slot]` loop.  Every round clears a flag, so
`fuel = capacity` rounds are enough (`release_window`). -/
def chase : Nat → CompletionTracker → Nat → CompletionTracker × Nat
  | 0, t, advanced => (t, advanced)
  | fuel + 1, t, advanced =>
    if t.released.getD t.headSlot false then
      chase fuel
        { t with
          released := t.released.set t.headSlot false
          headSlot := (t.headSlot + 1) % t.capacity }
        (advanced + 1)
    else (t, advanced)

/-- Mark `slot` as released and chase forward from the head slot; returns the
number of contiguous slots passed. -/
def release (t : CompletionTracker) (slot : Nat) : CompletionTracker × Nat :=
  let t :=
    if slot < t.capacity then { t with released := t.released.set slot true }
    else t
  chase t.capacity t 0

/-- The tracker stands at sequence number `h` and flags exactly the numbers of
the window `[h, h + capacity)` that `R` holds of. -/
structure Window (t : CompletionTracker) (h : Nat) (R : Nat → Bool) : Prop where
  size : t.released.length = t.capacity
  capacity_pos : 0 < t.capacity
  slot : t.headSlot = h % t.capacity
  flag : ∀ i, h ≤ i → i < h + t.capacity → t.released.getD (i % t.capacity) false = R i
  beyond : ∀ i, h + t.capacity ≤ i → R i = false

theorem new_window {capacity : Nat} (hpos : 0 < capacity) :
    (new capacity).Window 0 fun _ => false where
  size := by simp [new]
  capacity_pos := hpos
  slot := by simp [new]
  flag i _ _ := by
    simp [new, List.getD_eq_getElem?_getD, Nat.mod_lt i hpos]
  beyond _ _ := rfl

variable {h i j : Nat} {xs : List Bool} {t : CompletionTracker} {R : Nat → Bool}

/-- Two numbers of one window of `c` with the same residue are equal. -/
theorem mod_window_inj {c : Nat} (hi : h ≤ i ∧ i < h + c) (hj : h ≤ j ∧ j < h + c)
    (hmod : i % c = j % c) : i = j := by
  have hidiv := Nat.div_add_mod i c
  have hjdiv := Nat.div_add_mod j c
  rcases Nat.lt_trichotomy (i / c) (j / c) with hlt | heq | hgt
  · have := Nat.mul_le_mul_left c (Nat.succ_le_of_lt hlt)
    rw [Nat.mul_succ] at this
    omega
  · rw [heq] at hidiv
    omega
  · have := Nat.mul_le_mul_left c (Nat.succ_le_of_lt hgt)
    rw [Nat.mul_succ] at this
    omega

theorem getD_set_self (hi : i < xs.length) (b d : Bool) : (xs.set i b).getD i d = b := by
  simp [List.getD_eq_getElem?_getD, hi]

theorem getD_set_ne (hij : i ≠ j) (b d : Bool) : (xs.set i b).getD j d = xs.getD j d := by
  simp [List.getD_eq_getElem?_getD, hij]

/-- One round of the loop moves the window forward by one number. -/
theorem Window.advance (hw : t.Window h R) : Window
      { t with
        released := t.released.set t.headSlot false
        headSlot := (t.headSlot + 1) % t.capacity } (h + 1) R where
  size := by simp [hw.size]
  capacity_pos := hw.capacity_pos
  slot := by simp [hw.slot]
  flag i hlo hhi := by
    simp only at hhi ⊢
    have hslot : h % t.capacity < t.released.length := by
      rw [hw.size]; exact Nat.mod_lt _ hw.capacity_pos
    rw [hw.slot]
    by_cases hlast : i = h + t.capacity
    · -- the slot just passed is reused by the number entering the window
      rw [hlast, Nat.add_mod_right, getD_set_self hslot, hw.beyond _ le_rfl]
    · have hin : i < h + t.capacity := by omega
      rw [getD_set_ne, hw.flag i (by omega) hin]
      intro hmod
      have := mod_window_inj (c := t.capacity) (h := h) ⟨le_rfl, by omega⟩ ⟨by omega, hin⟩ hmod
      omega
  beyond i hi := hw.beyond i (by simp only at hi; omega)

theorem chase_window (fuel : Nat) (advanced : Nat) (hw : t.Window h R) :
    ∃ k, (chase fuel t advanced).2 = advanced + k ∧
      (chase fuel t advanced).1.Window (h + k) R ∧
      (chase fuel t advanced).1.capacity = t.capacity ∧
      (∀ j < k, R (h + j) = true) ∧ (k = fuel ∨ R (h + k) = false) := by
  induction fuel generalizing t h advanced with
  | zero => exact ⟨0, rfl, hw, rfl, by simp, .inl rfl⟩
  | succ fuel ih =>
    have hhead : t.released.getD t.headSlot false = R h := by
      rw [hw.slot]
      exact hw.flag h le_rfl (Nat.lt_add_of_pos_right hw.capacity_pos)
    cases hR : R h with
    | false =>
      refine ⟨0, ?_, ?_, ?_, by simp, .inr (by simpa using hR)⟩ <;>
        simp [chase, List.getD_eq_getElem?_getD ▸ hhead, hR, hw]
    | true =>
      obtain ⟨k, _, _, hcap, hall, hend⟩ :=
        ih (advanced + 1) hw.advance
      have hchase : chase (fuel + 1) t advanced = chase fuel
          { t with
            released := t.released.set t.headSlot false
            headSlot := (t.headSlot + 1) % t.capacity }
          (advanced + 1) := by
        rw [chase, if_pos (by rw [hhead, hR])]
      rw [hchase]
      refine ⟨k + 1, by omega, ?_, hcap, ?_, ?_⟩
      · rwa [show h + (k + 1) = h + 1 + k by omega]
      · intro j hj
        cases j with
        | zero => exact hR
        | succ j =>
          rw [show h + (j + 1) = h + 1 + j by omega]
          exact hall j (by omega)
      · rw [show h + (k + 1) = h + 1 + k by omega]
        exact hend.imp (congrArg (· + 1)) id

/-- Releasing a number of the window passes exactly the maximal released run
at the head and leaves the tracker at the first number not released. -/
theorem release_window (hw : t.Window h R) (hi : h ≤ i ∧ i < h + t.capacity) :
    ∃ k, (t.release (i % t.capacity)).2 = k ∧
      (t.release (i % t.capacity)).1.Window (h + k) (fun j => j == i || R j) ∧
      (t.release (i % t.capacity)).1.capacity = t.capacity ∧
      (∀ j < k, (h + j == i || R (h + j)) = true) ∧
      (h + k == i || R (h + k)) = false := by
  have hslot : i % t.capacity < t.capacity := Nat.mod_lt _ hw.capacity_pos
  have hmarked : Window
      { t with released := t.released.set (i % t.capacity) true } h
      (fun j => j == i || R j) := by
    refine ⟨by simp [hw.size], hw.capacity_pos, hw.slot, ?_, ?_⟩
    · intro j hlo hhi
      by_cases hji : j = i
      · subst hji
        simp only [beq_self_eq_true, Bool.true_or]
        exact getD_set_self (by rw [hw.size]; exact hslot) _ _
      · have hne : i % t.capacity ≠ j % t.capacity := fun hmod =>
          hji (mod_window_inj hi ⟨hlo, hhi⟩ hmod).symm
        simp only [beq_eq_false_iff_ne.mpr hji, Bool.false_or]
        rw [getD_set_ne hne]
        exact hw.flag j hlo hhi
    · intro j hj
      have hji : j ≠ i := by simp only at hj; omega
      simp [hji, hw.beyond j hj]
  obtain ⟨k, _, hwin, hcap, hall, hend⟩ :=
    chase_window t.capacity 0 hmarked
  have hrel : t.release (i % t.capacity) = chase t.capacity
      { t with released := t.released.set (i % t.capacity) true } 0 := by
    simp [release, hslot]
  rw [hrel]
  refine ⟨k, by omega, hwin, hcap, hall, ?_⟩
  -- the loop cannot run past the window: nothing beyond it is released
  rcases hend with rfl | hend
  · exact hmarked.beyond _ le_rfl
  · exact hend

/-- The tracker after the releases of `order`, and the sum of what they return. -/
def releaseAll (t : CompletionTracker) : List Nat → CompletionTracker × Nat
  | [] => (t, 0)
  | i :: order =>
    let (t, k) := t.release (i % t.capacity)
    let (t, n) := t.releaseAll order
    (t, k + n)

/-- After the numbers `before`, each number of `order` is released once and lies within
`capacity` of the first that is not released. -/
def InWindow (capacity : Nat) (before : List Nat) : List Nat → Prop
  | [] => True
  | i :: order =>
    (i ∉ before ∧ ∀ first ≤ i, first ∉ before → i < first + capacity) ∧
      InWindow capacity (before ++ [i]) order

/-- `n` is the length of the longest prefix of the numbers that is released, and the loop of
the last release has come to its end. -/
def Passed (t : CompletionTracker) (released : List Nat) (n : Nat) : Prop :=
  (∀ j < n, j ∈ released) ∧ n ∉ released ∧ t.released.getD t.headSlot false = false

theorem Window.releaseAll {before order : List Nat} (hw : t.Window h R)
    (hR : ∀ j, R j = true ↔ j ∈ before) (hpassed : t.Passed before h)
    (horder : InWindow t.capacity before order) :
    (t.releaseAll order).1.Passed (before ++ order) (h + (t.releaseAll order).2) := by
  induction order generalizing t h R before with
  | nil => rwa [List.append_nil]
  | cons i _ ih =>
    obtain ⟨⟨hnew, hwindow⟩, hrest⟩ := horder
    obtain ⟨hbefore, hfirst, -⟩ := hpassed
    have hle : h ≤ i := Nat.le_of_not_lt fun hlt => hnew (hbefore i hlt)
    obtain ⟨k, hk, hw', hcap, hrun, hend⟩ := release_window hw ⟨hle, hwindow h hle hfirst⟩
    have hR' (j : Nat) : (j == i || R j) = true ↔ j ∈ before ++ [i] := by
      simp [hR, or_comm]
    have hpassed : (t.release (i % t.capacity)).1.Passed (before ++ [i]) (h + k) := by
      refine ⟨fun j hj => ?_, fun hmem => ?_, ?_⟩
      · by_cases hjh : j < h
        · exact List.mem_append_left _ (hbefore j hjh)
        · have hmem := hrun (j - h) (by omega)
          rw [Nat.add_sub_cancel' (Nat.le_of_not_lt hjh)] at hmem
          exact (hR' j).mp hmem
      · cases hend.symm.trans ((hR' _).mpr hmem)
      · rw [hw'.slot, hw'.flag _ le_rfl (Nat.lt_add_of_pos_right hw'.capacity_pos), hend]
    have hall := ih hw' hR' hpassed (hcap.symm ▸ hrest)
    rw [List.append_assoc, add_assoc, ← hk] at hall
    exact hall

/-- The values that the releases return add up to the length of the longest prefix that is
released, after every release, and each release comes to its end. -/
theorem releases_pass_prefix {capacity : Nat} {order : List Nat}
    (horder : InWindow capacity [] order) :
    ((new capacity).releaseAll order).1.Passed order ((new capacity).releaseAll order).2 := by
  have hpassed : (new capacity).Passed [] 0 := by
    refine ⟨nofun, List.not_mem_nil, ?_⟩
    cases capacity <;> rfl
  rcases Nat.eq_zero_or_pos capacity with rfl | hpos
  · cases order with
    | nil => exact hpassed
    | cons i => exact absurd (horder.1.2 0 (Nat.zero_le i) List.not_mem_nil) (by omega)
  · have hall := (new_window hpos).releaseAll (fun _ => by simp) hpassed horder
    rwa [List.nil_append, zero_add] at hall

theorem releases_pass_prefix_reversed : ((new 2).releaseAll [1, 0]).1.Passed [1, 0] 2 :=
  releases_pass_prefix ⟨⟨by decide, by decide⟩, ⟨by decide, by decide⟩, trivial⟩

end CompletionTracker
end RdmaIo
