/-
What a slot table remembers of its past.  Every operation only moves slots forward, in
the order of generation first and vacant, occupied, retired second, so a token that has
been handed out is never handed out again, and one that has been released stays so.  Each
operation of a registry changes it at one token.
-/
import RdmaIo.Lib.SlotRegistry

namespace SlotRegistry

open Slot
open List

universe u

variable {α : Type u}

/-- The order of the states of a slot within one generation. -/
def SlotState.rank : SlotState α → Nat
  | .vacant => 0
  | .occupied _ => 1
  | .retired => 2

open SlotState (rank)

def Slot.isOccupied (s : Slot α) : Bool :=
  match s.state with
  | .occupied _ => true
  | _ => false

def Slot.isVacant (s : Slot α) : Bool :=
  match s.state with
  | .vacant => true
  | _ => false

variable {s : Slot α}

theorem Slot.isVacant_iff : s.isVacant = true ↔ s.state = .vacant := by
  unfold isVacant
  cases s.state <;> simp

/-- One slot is a later stage of another. -/
def Slot.Advances (s s' : Slot α) : Prop :=
  s.generation < s'.generation ∨ s.generation = s'.generation ∧ s.state.rank ≤ s'.state.rank

theorem Slot.Advances.refl (s : Slot α) : s.Advances s := .inr ⟨rfl, le_refl _⟩

theorem Slot.advances_released (completed : Bool) {generation : Nat} {value : α}
    (h : s.value generation = some value) : s.Advances (s.released completed) := by
  obtain ⟨hstate, -⟩ := value_eq_some.mp h
  by_cases hlast : s.generation = lastGeneration
  · right
    simp [released, hlast, hstate, rank]
  · left
    simp [released, hlast]

namespace Table

/-- Every slot of one table is in the other, at the same or a later stage. -/
def Advances (t t' : Table α) : Prop :=
  ∀ (index : Nat) (s : Slot α), t.slots[index]? = some s →
    ∃ s', t'.slots[index]? = some s' ∧ s.Advances s'

variable (t : Table α)

/-- The token has been handed out. -/
def Issued (token : Token) : Prop :=
  ∃ s, t.slots[token.slot]? = some s ∧ (token.generation < s.generation ∨
      token.generation = s.generation ∧ 0 < s.state.rank)

/-- The token has been handed out and released. -/
def Gone (token : Token) : Prop :=
  ∃ s, t.slots[token.slot]? = some s ∧ (token.generation < s.generation ∨
      token.generation = s.generation ∧ 1 < s.state.rank)

/-- The generations of the slot are used up. -/
def RetiredAt (index : Nat) : Prop :=
  ∃ s, t.slots[index]? = some s ∧ s.generation = lastGeneration ∧ s.state = .retired

variable {t t' : Table α} {token : Token}

variable {index : Nat} {s : Slot α} {page completed : Bool} {make : Token → α} {value : α}

/-- Replacing a slot by a later stage of it advances the table. -/
theorem advances_set {s' : Slot α} (hs : t.slots[index]? = some s)
    (hadvances : s.Advances s') (recycled : List Nat) (live : Nat) :
    t.Advances { t with slots := t.slots.set index s', recycled := recycled, live := live } := by
  intro other old hold
  have hlt := (List.getElem?_eq_some_iff.mp hs).1
  by_cases heq : other = index
  · subst heq
    rw [hs, Option.some.injEq] at hold
    subst hold
    exact ⟨s', List.getElem?_set_self hlt, hadvances⟩
  · refine ⟨old, ?_, Slot.Advances.refl old⟩
    simpa [List.getElem?_set_ne (Ne.symm heq)] using hold

theorem advances_allocate (h : t.allocate page make = .ok (token, t')) : t.Advances t' := by
  rcases allocate_eq_ok h with ⟨s, recycled, -, hslot, hvacant, -, rfl⟩ | ⟨-, -, -, rfl⟩
  · apply advances_set hslot
    right
    simp [hvacant, rank]
  · intro index s hs
    have hlt := (List.getElem?_eq_some_iff.mp hs).1
    exact ⟨s, by simpa [List.getElem?_append_left hlt] using hs, Slot.Advances.refl s⟩

theorem advances_release (h : t.release token completed = some (value, t')) : t.Advances t' := by
  obtain ⟨s, hslot, hvalue, rfl⟩ := release_eq_some h
  exact advances_set hslot (advances_released completed hvalue) _ _

theorem advances_set_value (value : α) : t.Advances (t.set token value) := by
  cases hget : t.get? token with
  | none =>
    rw [set_of_none hget]
    exact fun index s hs => ⟨s, hs, Slot.Advances.refl s⟩
  | some =>
    obtain ⟨s, hslot, hold, heq⟩ := set_eq value hget
    rw [heq]
    apply advances_set hslot
    right
    simp [(value_eq_some.mp hold).1, rank]

theorem Issued.mono (h : t.Issued token) (hadvances : t.Advances t') : t'.Issued token := by
  obtain ⟨s, hs, hissued⟩ := h
  obtain ⟨s', hs', hlater⟩ := hadvances token.slot s hs
  refine ⟨s', hs', ?_⟩
  rcases hlater with hlt | ⟨hgeneration, hrank⟩
  · left
    omega
  · rw [← hgeneration]
    exact hissued.imp_right fun hoccupied => ⟨hoccupied.1, by omega⟩

theorem Gone.mono (h : t.Gone token) (hadvances : t.Advances t') : t'.Gone token := by
  obtain ⟨s, hs, hgone⟩ := h
  obtain ⟨s', hs', hlater⟩ := hadvances token.slot s hs
  refine ⟨s', hs', ?_⟩
  rcases hlater with hlt | ⟨hgeneration, hrank⟩
  · left
    omega
  · rw [← hgeneration]
    exact hgone.imp_right fun hretired => ⟨hretired.1, by omega⟩

theorem Gone.get?_eq_none (h : t.Gone token) : t.get? token = none := by
  obtain ⟨s, hs, hgone⟩ := h
  cases hget : t.get? token with
  | none => rfl
  | some =>
    obtain ⟨_, hs', hoccupied, _⟩ := get?_eq_some.mp hget
    rw [hs, Option.some.injEq] at hs'
    subst hs'
    rw [hoccupied] at hgone
    simp only [rank] at hgone
    omega

/-- A slot without generations left cannot get further. -/
theorem RetiredAt.mono (h : t.RetiredAt index) (hadvances : t.Advances t')
    (hbounded : ∀ s ∈ t'.slots, s.generation ≤ lastGeneration) : t'.RetiredAt index := by
  obtain ⟨s, hs, _, hretired⟩ := h
  obtain ⟨s', hs', hlater⟩ := hadvances index s hs
  have hle := hbounded s' (mem_of_getElem? hs')
  rcases hlater with hlt | ⟨hsame, hrank⟩
  · omega
  · refine ⟨s', hs', by omega, ?_⟩
    rw [hretired] at hrank
    cases hstate : s'.state with
    | vacant => simp [hstate, rank] at hrank
    | occupied => simp [hstate, rank] at hrank
    | retired => rfl

/-- A token is handed out for the first time. -/
theorem issued_allocate (h : t.allocate page make = .ok (token, t')) :
    ¬ t.Issued token ∧ t'.Issued token := by
  rcases allocate_eq_ok h with ⟨s, recycled, -, hslot, hvacant, hgeneration, rfl⟩ | ⟨-, -, rfl, rfl⟩
  · have hlt := (List.getElem?_eq_some_iff.mp hslot).1
    constructor
    · rintro ⟨s', hs', hissued⟩
      rw [hslot, Option.some.injEq] at hs'
      subst hs'
      simp only [hvacant, rank] at hissued
      omega
    · exact ⟨_, List.getElem?_set_self hlt, .inr ⟨hgeneration.symm, by simp [rank]⟩⟩
  · constructor
    · rintro ⟨_, hs', -⟩
      simp at hs'
    · exact ⟨⟨1, .occupied (make ⟨t.slots.length, 1⟩), none⟩, by simp, .inr ⟨rfl, by simp [rank]⟩⟩

theorem gone_release (h : t.release token completed = some (value, t')) : t'.Gone token := by
  obtain ⟨s, hslot, hvalue, rfl⟩ := release_eq_some h
  obtain ⟨_, hgeneration⟩ := value_eq_some.mp hvalue
  have hlt := (List.getElem?_eq_some_iff.mp hslot).1
  refine ⟨s.released completed, List.getElem?_set_self hlt, ?_⟩
  by_cases hlast : s.generation = lastGeneration
  · right
    simp [released, hlast, ← hgeneration, rank]
  · left
    simp only [released, if_neg hlast]
    omega

/-- The release of the last generation retires the slot. -/
theorem retiredAt_release (h : t.release token completed = some (value, t'))
    (hlast : token.generation = lastGeneration) : t'.RetiredAt token.slot := by
  obtain ⟨s, hslot, hvalue, rfl⟩ := release_eq_some h
  have hgeneration := (value_eq_some.mp hvalue).2
  have hlt := (List.getElem?_eq_some_iff.mp hslot).1
  refine ⟨s.released completed, List.getElem?_set_self hlt, ?_, ?_⟩ <;>
    simp [released, hgeneration, hlast]

/-- The slot an index reads: the pages of the slots handed out so far exist as a whole. -/
def read (t : Table α) (index : Nat) : Option (Slot α) :=
  match t.slots[index]? with
  | some s => some s
  | none => if index / pageSize * pageSize < t.slots.length then some .fresh else none

theorem read_of_getElem? (h : t.slots[index]? = some s) : t.read index = some s := by
  simp [read, h]

/-- An index past the slots handed out so far reads nothing but a fresh slot. -/
theorem read_of_length_le (h : t.slots.length ≤ index) : t.read index =
      if index / pageSize * pageSize < t.slots.length then some .fresh else none := by
  simp only [read, List.getElem?_eq_none h]

theorem countP_range_getElem? {β : Type u} (p : β → Bool) (l : List β) :
    (List.range l.length).countP (fun i => l[i]?.any p) = l.countP p := by
  induction l with
  | nil => rfl
  | cons _ _ ih =>
    simp only [length_cons, range_succ_eq_map, countP_cons, countP_map,
      Function.comp_def, List.getElem?_cons_succ, List.getElem?_cons_zero, Option.any_some]
    rw [ih]

/-- Counting over the indices of a registry counts the slots handed out so far. -/
theorem countP_read (p : Slot α → Bool) (hfresh : p .fresh = false) {capacity : Nat}
    (hle : t.slots.length ≤ capacity) :
    (List.range capacity).countP (fun i => (t.read i).any p) = t.slots.countP p := by
  obtain ⟨rest, rfl⟩ := Nat.exists_eq_add_of_le hle
  rw [range_add, countP_append, countP_map]
  have hlow : (List.range t.slots.length).countP (fun i => (t.read i).any p) =
      t.slots.countP p := by
    rw [← countP_range_getElem? p]
    apply countP_congr
    intro index hindex
    have hlt := mem_range.mp hindex
    rw [read_of_getElem? (List.getElem?_eq_getElem hlt), List.getElem?_eq_getElem hlt]
  have hhigh : (List.range rest).countP
      ((fun i => (t.read i).any p) ∘ fun i => t.slots.length + i) = 0 := by
    apply countP_eq_zero.mpr
    intro index _
    simp only [Function.comp_apply, read_of_length_le (Nat.le_add_right _ _)]
    split <;> simp [hfresh]
  rw [hlow, hhigh, add_zero]

theorem sum_weight_eq_countP (l : List (Slot α)) :
    (l.map (weight fun _ => 1)).sum = l.countP isOccupied := by
  induction l with
  | nil => rfl
  | cons s _ ih =>
    rw [map_cons, sum_cons, ih, countP_cons, add_comm]
    cases hstate : s.state <;> simp [weight, isOccupied, hstate]

theorem countP_states (l : List (Slot α)) :
    l.countP isOccupied + l.countP isVacant + l.countP isRetired =
      l.length := by
  induction l with
  | nil => rfl
  | cons s =>
    simp only [countP_cons, length_cons]
    cases hstate : s.state <;>
      simp [isOccupied, isVacant, isRetired, hstate] <;> omega

theorem WellFormed.live_eq_countP (h : t.WellFormed) : t.live = t.slots.countP isOccupied :=
  h.counted.trans (sum_weight_eq_countP t.slots)

/-- The free list holds every vacant slot, once. -/
theorem WellFormed.length_recycled (h : t.WellFormed) :
    t.recycled.length = t.slots.countP isVacant := by
  rw [← countP_range_getElem? isVacant, countP_eq_length_filter]
  apply Perm.length_eq
  apply (perm_ext_iff_of_nodup h.nodup (nodup_range.filter _)).mpr
  intro index
  rw [h.free index, mem_filter, mem_range, Option.any_eq_true]
  constructor
  · rintro ⟨s, hs, hvacant⟩
    exact ⟨(List.getElem?_eq_some_iff.mp hs).1, s, hs, isVacant_iff.mpr hvacant⟩
  · rintro ⟨-, s, hs, hvacant⟩
    exact ⟨s, hs, isVacant_iff.mp hvacant⟩

/-- Every slot handed out so far is occupied, free or retired. -/
theorem WellFormed.partition (h : t.WellFormed) :
    t.live + t.recycled.length + t.slots.countP isRetired = t.slots.length := by
  rw [h.live_eq_countP, h.length_recycled]
  exact countP_states t.slots

end Table

namespace Registry

variable {r r' : Registry α} {token : Token} {value old : α} {page completed : Bool}
  {make : Token → α}

/-- The registry changes at one token, from `before` to `after`. -/
structure Moved (token : Token) (before after : Option α) (r r' : Registry α) : Prop where
  get?_before : r.get? token = before
  get?_eq : ∀ other, r'.get? other = if other = token then after else r.get? other
  total_eq : ∀ {M : Type} [AddCancelCommMonoid M] (f : α → M),
    before.elim 0 f + r'.total f = after.elim 0 f + r.total f
  issued : ∀ other, r.table.Issued other → r'.table.Issued other
  new : before = none → ¬ r.table.Issued token

theorem issued_of_get? (h : r.get? token = some value) : r.table.Issued token := by
  obtain ⟨s, hslot, hoccupied, hgeneration⟩ := Table.get?_eq_some.mp h
  exact ⟨s, hslot, .inr ⟨hgeneration.symm, by simp [hoccupied, SlotState.rank]⟩⟩

theorem Moved.trans {before after last : Option α} {r'' : Registry α}
    (h : Moved token before after r r') (h' : Moved token after last r' r'') :
    Moved token before last r r'' where
  get?_before := h.get?_before
  get?_eq other := by
    rw [h'.get?_eq, h.get?_eq]
    by_cases hother : other = token <;> simp [hother]
  total_eq f := by
    apply add_left_cancel (a := r'.total f)
    rw [add_left_comm, ← add_assoc, h.total_eq f, add_right_comm, h'.total_eq f, add_assoc,
      add_left_comm]
  issued other hissued := h'.issued other (h.issued other hissued)
  new := h.new

theorem exists_release (h : r.get? token = some value) (completed : Bool) :
    ∃ r', r.release token completed = some (value, r') := by
  obtain ⟨s, hslot, hvalue⟩ := Option.bind_eq_some_iff.mp h
  unfold release
  split
  next ht =>
    obtain ⟨_, hslot', hvalue', -⟩ := Table.release_eq_some ht
    rw [hslot, Option.some.injEq] at hslot'
    rw [← hslot', hvalue, Option.some.injEq] at hvalue'
    exact ⟨_, by rw [hvalue']⟩
  next hnone => simp [Table.release, hslot, hvalue] at hnone

theorem moved_allocate (h : r.allocate page make = .ok (token, r')) :
    Moved token none (some (make token)) r r' := by
  have hnew := (Table.issued_allocate (allocate_table h)).1
  refine ⟨?_, get?_allocate h, fun f => ?_, fun _ hissued => ?_, fun _ => hnew⟩
  · by_contra hne
    obtain ⟨_, hvalue⟩ := Option.ne_none_iff_exists'.mp hne
    exact hnew (issued_of_get? hvalue)
  · exact (zero_add _).trans (Table.total_allocate f (allocate_table h))
  · exact hissued.mono (Table.advances_allocate (allocate_table h))

theorem moved_release (h : r.release token completed = some (value, r')) :
    Moved token (some value) none r r' := by
  obtain ⟨s, hslot, hvalue, -⟩ := Table.release_eq_some (release_table h)
  refine ⟨Option.bind_eq_some_iff.mpr ⟨s, hslot, hvalue⟩, get?_release h, fun f => ?_,
    fun _ hissued => ?_, by simp⟩
  · exact (Table.total_release f (release_table h)).trans (zero_add _).symm
  · exact hissued.mono (Table.advances_release (release_table h))

theorem le_total (h : r.get? token = some value) (f : α → Nat) : f value ≤ r.total f := by
  obtain ⟨_, hrelease⟩ := exists_release h false
  have htotal := (moved_release hrelease).total_eq f
  simp only [Option.elim_some, Option.elim_none] at htotal
  omega

theorem total_eq_zero {M : Type} [AddCommMonoid M] {f : α → M}
    (h : ∀ token value, r.get? token = some value → f value = 0) : r.total f = 0 := by
  apply sum_eq_zero
  intro x hx
  obtain ⟨s, hs, rfl⟩ := mem_map.mp hx
  obtain ⟨index, hslot⟩ := mem_iff_getElem?.mp hs
  cases hstate : s.state with
  | occupied value =>
    have hget : r.get? ⟨index, s.generation⟩ = some value :=
      Table.get?_eq_some.mpr ⟨s, hslot, hstate, rfl⟩
    simpa [weight, hstate] using h _ value hget
  | vacant | retired => simp [weight, hstate]

theorem moved_set (value : α) (h : r.get? token = some old) :
    Moved token (some old) (some value) r (r.set token value) := by
  obtain ⟨s, hslot, hold, heq⟩ := Table.set_eq value h
  obtain ⟨-, hgeneration⟩ := value_eq_some.mp hold
  have hlt := (List.getElem?_eq_some_iff.mp hslot).1
  have hself : (r.set token value).get? token = some value := by
    simp [get?, set, heq, Table.get?, hlt, Slot.value, hgeneration]
  refine ⟨h, fun other => ?_, fun f => Table.total_set f value h,
    fun _ hissued => hissued.mono (Table.advances_set_value value), by simp⟩
  by_cases hother : other = token
  · rw [if_pos hother, hother, hself]
  rw [if_neg hother]
  by_cases hindex : other.slot = token.slot
  · -- another generation of the slot has no value before or after
    have hnone : ∀ r : Registry α, (r.get? token).isSome → r.get? other = none := by
      intro r hr
      by_contra hne
      exact hother (eq_of_slot_eq (Option.isSome_iff_ne_none.mpr hne) hr hindex)
    rw [hnone _ (by simp [hself]), hnone _ (by simp [h])]
  · simp only [get?, set, heq]
    exact Table.get?_slots_set hindex _ _

end Registry

end SlotRegistry
