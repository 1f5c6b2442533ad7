/-
Generational slot registries: a bounded table of slots, each with a generation
that moves on when the slot is released, and a stack of released slots that are
handed out again before a new one is.

A token names a slot and a generation.  A registry carries the proof that its
free list is exactly the set of vacant slots, so its users reason about `get?`
as about a finite map from tokens, and about `total` as about a sum over its
values.
-/
import Mathlib

namespace SlotRegistry

open List

universe u v

variable {α : Type u} {M : Type v}

structure Token where
  slot : Nat
  generation : Nat
deriving Repr, DecidableEq

inductive SlotState (α : Type u) where
  | vacant
  | occupied (value : α)
  | retired
deriving Repr, DecidableEq

structure Slot (α : Type u) where
  generation : Nat
  state : SlotState α
  lastCompletedGeneration : Option Nat
deriving Repr, DecidableEq

inductive Lookup (α : Type u) where
  | occupied (value : α)
  | duplicate
  | stale
  | unknown
  | retired
deriving Repr, DecidableEq

inductive AllocateError where
  | capacityExhausted
  | pageAllocationFailed
  | nonVacantSlot
deriving Repr, DecidableEq

/-- Slots are allocated a page at a time. -/
def pageSize : Nat := 256

/-- The last generation of a 32-bit counter. -/
def lastGeneration : Nat := 4294967295

def Slot.fresh : Slot α := ⟨1, .vacant, none⟩

/-- The value a slot holds for a token of the given generation. -/
def Slot.value (generation : Nat) (s : Slot α) : Option α :=
  match s.state with
  | .occupied value => if s.generation = generation then some value else none
  | _ => none

/-- What a slot adds to a sum over the values of its table. -/
def Slot.weight [Zero M] (f : α → M) (s : Slot α) : M :=
  match s.state with
  | .occupied value => f value
  | _ => 0

def Slot.isRetired (s : Slot α) : Bool :=
  match s.state with
  | .retired => true
  | _ => false

/-- A slot after its value was released. -/
def Slot.released (completed : Bool) (s : Slot α) : Slot α :=
  { generation := if s.generation = lastGeneration then s.generation else s.generation + 1
    state := if s.generation = lastGeneration then .retired else .vacant
    lastCompletedGeneration :=
      if completed then some s.generation else s.lastCompletedGeneration }

/-- The table itself: `slots` are the slots handed out so far, `recycled` the
stack of those that were released. -/
structure Table (α : Type u) where
  capacity : Nat
  slots : List (Slot α)
  recycled : List Nat
  live : Nat
deriving Repr, DecidableEq

namespace Table

def new (capacity : Nat) : Table α := ⟨capacity, [], [], 0⟩

variable (t : Table α)

/-- The slot behind an index.  The pages of `slots` exist as a whole, so an
index past the last handed-out slot of an existing page reads a fresh slot. -/
def slotRef (index : Nat) : Option (Slot α) :=
  if index ≥ t.capacity then none
  else match t.slots[index]? with
    | some s => some s
    | none => if index / pageSize * pageSize < t.slots.length then some .fresh else none

variable (token : Token)

def lookup : Lookup α :=
  match t.slotRef token.slot with
  | none => .unknown
  | some s =>
    if s.lastCompletedGeneration = some token.generation then .duplicate
    else if s.generation ≠ token.generation then .stale
    else match s.state with
      | .occupied value => .occupied value
      | .vacant => .unknown
      | .retired => .retired

def get? : Option α :=
  t.slots[token.slot]?.bind (Slot.value token.generation)

/-- Put a value into the slot of a token that is occupied. -/
def set (value : α) : Table α :=
  match t.slots[token.slot]? with
  | some s =>
    if (s.value token.generation).isSome then
      { t with slots := t.slots.set token.slot { s with state := .occupied value } }
    else t
  | none => t

/-- Hand out a slot: the last released one, or the next unused one, for which a
page may have to be allocated. -/
def allocate (pageAvailable : Bool) (make : Token → α) (t : Table α) :
    Except AllocateError (Token × Table α) :=
  match t.recycled with
  | index :: recycled =>
    match t.slots[index]? with
    | some s =>
      match s.state with
      | .vacant =>
        let token := ⟨index, s.generation⟩
        .ok (token, { t with
          slots := t.slots.set index { s with state := .occupied (make token) }
          recycled := recycled, live := t.live + 1 })
      | _ => .error .nonVacantSlot
    | none => .error .capacityExhausted
  | [] =>
    if t.slots.length ≥ t.capacity then .error .capacityExhausted
    else if t.slots.length % pageSize = 0 ∧ !pageAvailable then
      .error .pageAllocationFailed
    else
      let token := ⟨t.slots.length, 1⟩
      .ok (token, { t with
        slots := t.slots ++ [⟨1, .occupied (make token), none⟩]
        live := t.live + 1 })

def release (completed : Bool) (t : Table α) : Option (α × Table α) :=
  match t.slots[token.slot]? with
  | none => none
  | some s =>
    match s.value token.generation with
    | none => none
    | some value => some (value, { t with
        slots := t.slots.set token.slot (s.released completed)
        recycled :=
          if s.generation = lastGeneration then t.recycled else token.slot :: t.recycled
        live := t.live - 1 })

/-- The tokens of the occupied slots from `start` on, at most `budget` slots
further, with the slot to continue at, whether the table ends there, and the
number of slots looked at. -/
def scanOccupied (start budget : Nat) : List Token × Nat × Bool × Nat :=
  let stop := min (start + budget) t.slots.length
  (((List.range' start (stop - start)).filterMap fun index =>
      t.slots[index]?.bind fun s =>
        match s.state with
        | .occupied _ => some ⟨index, s.generation⟩
        | _ => none),
    stop, decide (stop ≥ t.slots.length), stop - start)

/-- The sum of `f` over the values of a table. -/
def total [AddCommMonoid M] (f : α → M) (t : Table α) : M :=
  (t.slots.map (Slot.weight f)).sum

structure WellFormed (t : Table α) : Prop where
  bounded : t.slots.length ≤ t.capacity
  nodup : t.recycled.Nodup
  free : ∀ index, index ∈ t.recycled ↔ ∃ s, t.slots[index]? = some s ∧ s.state = .vacant
  completed : ∀ s ∈ t.slots, ∀ g, s.lastCompletedGeneration = some g →
    g < s.generation ∨ s.state = .retired
  generations : ∀ s ∈ t.slots, s.generation ≤ lastGeneration
  counted : t.live = t.total fun _ => 1

end Table

section Slots

/-- Replacing one slot moves a sum by that slot's weight. -/
theorem sum_map_set [AddCommMonoid M] {β : Type u} (f : β → M) {l : List β} {i : Nat}
    {x y : β} (hx : l[i]? = some x) :
    f x + ((l.set i y).map f).sum = f y + (l.map f).sum := by
  induction l generalizing i with
  | nil => simp at hx
  | cons _ _ ih =>
    cases i with
    | zero =>
      simp only [List.getElem?_cons_zero, Option.some.injEq] at hx
      subst hx
      simp only [set_cons_zero, map_cons, sum_cons]
      exact add_left_comm _ _ _
    | succ =>
      simp only [List.getElem?_cons_succ] at hx
      simp only [set_cons_succ, map_cons, sum_cons]
      rw [add_left_comm, ih hx, add_left_comm]

variable {s : Slot α} {generation : Nat} {value : α}

theorem Slot.value_eq_some : s.value generation = some value ↔
      s.state = .occupied value ∧ s.generation = generation := by
  unfold Slot.value
  cases s.state <;> simp [and_comm]

theorem Slot.weight_of_value [Zero M] (f : α → M) (h : s.value generation = some value) :
    s.weight f = f value := by
  simp [Slot.weight, (Slot.value_eq_some.mp h).1]

@[simp] theorem Slot.weight_released [Zero M] (f : α → M) (s : Slot α) (completed : Bool) :
    (s.released completed).weight f = 0 := by
  unfold Slot.weight Slot.released
  by_cases h : s.generation = lastGeneration <;> simp [h]

end Slots

namespace Table

theorem wellFormed_new (capacity : Nat) : (new capacity : Table α).WellFormed := by
  constructor <;> simp [new, total]

variable {t : Table α} {token : Token} {value : α}

theorem get?_eq_some : t.get? token = some value ↔
      ∃ s, t.slots[token.slot]? = some s ∧ s.state = .occupied value ∧
        s.generation = token.generation := by
  simp only [get?, Option.bind_eq_some_iff, Slot.value_eq_some]

variable {t' : Table α} {page completed : Bool} {make : Token → α} {old : α}

/-- What `allocate` does when it succeeds. -/
theorem allocate_eq_ok (h : t.allocate page make = .ok (token, t')) :
    (∃ s recycled, t.recycled = token.slot :: recycled ∧
        t.slots[token.slot]? = some s ∧ s.state = .vacant ∧
        s.generation = token.generation ∧
        t' = { t with
          slots := t.slots.set token.slot { s with state := .occupied (make token) }
          recycled := recycled, live := t.live + 1 }) ∨
      (t.recycled = [] ∧ t.slots.length < t.capacity ∧ token = ⟨t.slots.length, 1⟩ ∧ t' = { t with
          slots := t.slots ++ [⟨1, .occupied (make token), none⟩]
          live := t.live + 1 }) := by
  unfold allocate at h
  split at h
  next recycled hrecycled =>
    split at h
    next s hslot =>
      split at h
      next hvacant =>
        cases h
        exact .inl ⟨s, recycled, hrecycled, hslot, hvacant, rfl, rfl⟩
      next => cases h
    next => cases h
  next hrecycled =>
    split at h
    · cases h
    · split at h
      · cases h
      · cases h
        exact .inr ⟨hrecycled, by omega, rfl, rfl⟩

theorem release_eq_some (h : t.release token completed = some (value, t')) :
    ∃ s, t.slots[token.slot]? = some s ∧ s.value token.generation = some value ∧
      t' = { t with
        slots := t.slots.set token.slot (s.released completed)
        recycled :=
          if s.generation = lastGeneration then t.recycled else token.slot :: t.recycled
        live := t.live - 1 } := by
  unfold release at h
  split at h
  next => cases h
  next s hslot =>
    split at h
    next => cases h
    next hv =>
      cases h
      exact ⟨s, hslot, hv, rfl⟩

theorem set_eq (value : α) (h : t.get? token = some old) :
    ∃ s, t.slots[token.slot]? = some s ∧ s.value token.generation = some old ∧
      t.set token value =
        { t with slots := t.slots.set token.slot { s with state := .occupied value } } := by
  obtain ⟨s, hslot, hv⟩ := Option.bind_eq_some_iff.mp h
  exact ⟨s, hslot, hv, by simp [set, hslot, hv]⟩

theorem total_allocate [AddCommMonoid M] (f : α → M) (h : t.allocate page make = .ok (token, t')) :
    t'.total f = f (make token) + t.total f := by
  rcases allocate_eq_ok h with ⟨s, recycled, -, hslot, hvacant, -, rfl⟩ | ⟨-, -, -, rfl⟩
  · have hsum := sum_map_set (Slot.weight f) (y := { s with state := .occupied (make token) }) hslot
    have hzero : s.weight f = 0 := by simp [Slot.weight, hvacant]
    rw [hzero, zero_add] at hsum
    exact hsum
  · simp [total, Slot.weight, add_comm]

theorem total_release [AddCommMonoid M] (f : α → M)
    (h : t.release token completed = some (value, t')) : f value + t'.total f = t.total f := by
  obtain ⟨s, hslot, hvalue, rfl⟩ := release_eq_some h
  have hsum := sum_map_set (Slot.weight f) (y := s.released completed) hslot
  rw [Slot.weight_of_value f hvalue, Slot.weight_released, zero_add] at hsum
  exact hsum

theorem total_set [AddCommMonoid M] (f : α → M) (value : α) (h : t.get? token = some old) :
    f old + (t.set token value).total f = f value + t.total f := by
  obtain ⟨s, hslot, hold, heq⟩ := set_eq value h
  have hsum := sum_map_set (Slot.weight f) (y := { s with state := .occupied value }) hslot
  rw [Slot.weight_of_value f hold] at hsum
  rw [heq]
  exact hsum

theorem set_of_none (h : t.get? token = none) : t.set token value = t := by
  unfold set
  split
  next s hslot =>
    have hvalue : s.value token.generation = none := by simpa [get?, hslot] using h
    simp [hvalue]
  next => rfl

theorem set_self (h : t.get? token = some value) : t.set token value = t := by
  obtain ⟨s, hslot, hvalue, heq⟩ := set_eq value h
  obtain ⟨hstate, -⟩ := Slot.value_eq_some.mp hvalue
  obtain ⟨_, hget⟩ := List.getElem?_eq_some_iff.mp hslot
  have hsame : { s with state := .occupied value } = s := by rw [← hstate]
  rw [heq, hsame, ← hget, set_getElem_self]

/-- A slot that is replaced keeps every other token's value. -/
theorem get?_slots_set {index : Nat} {s : Slot α} {other : Token}
    (hne : other.slot ≠ index) (recycled : List Nat) (live : Nat) :
    get? { t with slots := t.slots.set index s, recycled := recycled, live := live } other =
      t.get? other := by
  simp [get?, List.getElem?_set_ne hne.symm]

end Table

/-- A slot table whose free list is right. -/
structure Registry (α : Type u) where
  table : Table α
  wellFormed : table.WellFormed

namespace Registry

variable {r r' : Registry α} {token other : Token}

variable {page : Bool} {make : Token → α}

variable {t t' : Table α} {completed : Bool}

/-- What every slot and the new one have, every slot has after a write. -/
theorem forall_mem_set {P : Slot α → Prop} {slots : List (Slot α)} (hslots : ∀ s ∈ slots, P s)
    {index : Nat} {s : Slot α} (hnew : P s) : ∀ s' ∈ slots.set index s, P s' := by
  intro s' hs'
  rcases mem_or_eq_of_mem_set hs' with hold | rfl
  · exact hslots s' hold
  · exact hnew

theorem wellFormed_allocate (hwf : t.WellFormed) (h : t.allocate page make = .ok (token, t')) :
    t'.WellFormed := by
  have hcount := Table.total_allocate (fun _ => 1) h
  rcases Table.allocate_eq_ok h with
    ⟨s, recycled, hrecycled, hslot, hvacant, -, rfl⟩ | ⟨hempty, hroom, -, rfl⟩
  · have hnodup := hwf.nodup
    rw [hrecycled, nodup_cons] at hnodup
    have hmem := mem_of_getElem? hslot
    constructor
    · simpa using hwf.bounded
    · exact hnodup.2
    · intro index
      have hfree := hwf.free index
      rw [hrecycled, mem_cons] at hfree
      by_cases hindex : index = token.slot
      · subst hindex
        have hlt := (List.getElem?_eq_some_iff.mp hslot).1
        simp [hnodup.1, hlt]
      · rw [List.getElem?_set_ne (Ne.symm hindex)]
        simpa [hindex] using hfree
    · refine forall_mem_set hwf.completed fun g hg => ?_
      exact (hwf.completed s hmem g hg).imp id fun hretired => by simp [hvacant] at hretired
    · exact forall_mem_set hwf.generations (hwf.generations s hmem)
    · rw [hcount, ← hwf.counted]
      exact add_comm _ _
  · constructor
    · simpa using Nat.succ_le_of_lt hroom
    · exact hwf.nodup
    · intro index
      rw [hwf.free index]
      by_cases hindex : index < t.slots.length
      · simp [List.getElem?_append_left hindex]
      · have hnone : t.slots[index]? = none := List.getElem?_eq_none (by omega)
        simp only [hnone, List.getElem?_append_right (Nat.le_of_not_lt hindex)]
        cases index - t.slots.length <;> simp
    · exact forall_mem_append.mpr ⟨hwf.completed, forall_mem_singleton.mpr (by simp)⟩
    · exact forall_mem_append.mpr
        ⟨hwf.generations, forall_mem_singleton.mpr (by simp [lastGeneration])⟩
    · rw [hcount, ← hwf.counted]
      exact add_comm _ _

variable {value : α}

theorem wellFormed_release (hwf : t.WellFormed) (h : t.release token completed = some (value, t')) :
    t'.WellFormed := by
  have hcount := Table.total_release (fun _ => 1) h
  obtain ⟨s, hslot, hvalue, rfl⟩ := Table.release_eq_some h
  obtain ⟨hoccupied, -⟩ := Slot.value_eq_some.mp hvalue
  have hmem := mem_of_getElem? hslot
  have hlt := (List.getElem?_eq_some_iff.mp hslot).1
  have hbusy : token.slot ∉ t.recycled := by
    intro hin
    obtain ⟨_, hs', hvacant⟩ := (hwf.free _).mp hin
    rw [hslot, Option.some.injEq] at hs'
    simp [← hs', hoccupied] at hvacant
  constructor
  · simpa using hwf.bounded
  · by_cases hlast : s.generation = lastGeneration
    · simpa [hlast] using hwf.nodup
    · simpa [hlast] using nodup_cons.mpr ⟨hbusy, hwf.nodup⟩
  · intro index
    by_cases hindex : index = token.slot
    · subst hindex
      by_cases hlast : s.generation = lastGeneration
      · simp [hlast, hbusy, hlt, Slot.released]
      · simp [hlast, hlt, Slot.released]
    · have hfree := hwf.free index
      simp only [List.getElem?_set_ne (Ne.symm hindex)]
      by_cases hlast : s.generation = lastGeneration
      · simpa [hlast] using hfree
      · simpa [hlast, hindex] using hfree
  · refine forall_mem_set hwf.completed fun g hg => ?_
    by_cases hlast : s.generation = lastGeneration
    · simp [Slot.released, hlast]
    · left
      simp only [Slot.released, hlast, if_false] at hg ⊢
      cases completed with
      | true =>
        simp only [if_true, Option.some.injEq] at hg
        omega
      | false =>
        rcases hwf.completed s hmem g (by simpa using hg) with hless | hretired
        · omega
        · simp [hoccupied] at hretired
  · refine forall_mem_set hwf.generations ?_
    have hle := hwf.generations s hmem
    by_cases hlast : s.generation = lastGeneration
    · simp [Slot.released, hlast]
    · simp only [Slot.released, hlast, if_false]
      omega
  · exact Nat.sub_eq_of_eq_add' (hwf.counted.trans hcount.symm)

theorem wellFormed_set (hwf : t.WellFormed) (value : α) : (t.set token value).WellFormed := by
  cases hget : t.get? token with
  | none =>
    rw [Table.set_of_none hget]
    exact hwf
  | some =>
    have hcount := Table.total_set (fun _ => 1) value hget
    obtain ⟨s, hslot, hold, heq⟩ := Table.set_eq value hget
    obtain ⟨hoccupied, -⟩ := Slot.value_eq_some.mp hold
    have hmem := mem_of_getElem? hslot
    have hlt := (List.getElem?_eq_some_iff.mp hslot).1
    rw [heq] at hcount ⊢
    constructor
    · simpa using hwf.bounded
    · exact hwf.nodup
    · intro index
      rw [hwf.free index]
      by_cases hindex : index = token.slot
      · subst hindex
        rw [List.getElem?_set_self hlt, hslot]
        simp [hoccupied]
      · rw [List.getElem?_set_ne (Ne.symm hindex)]
    · refine forall_mem_set hwf.completed fun g hg => ?_
      exact (hwf.completed s hmem g hg).imp id fun hretired => by simp [hoccupied] at hretired
    · exact forall_mem_set hwf.generations (hwf.generations s hmem)
    · rw [hwf.counted]
      exact (add_left_cancel hcount).symm

def new (capacity : Nat) : Registry α := ⟨.new capacity, Table.wellFormed_new capacity⟩

def capacity (r : Registry α) : Nat := r.table.capacity

def live (r : Registry α) : Nat := r.table.live

def lookup (r : Registry α) (token : Token) : Lookup α := r.table.lookup token

def get? (r : Registry α) (token : Token) : Option α := r.table.get? token

def total [AddCommMonoid M] (f : α → M) (r : Registry α) : M := r.table.total f

def set (r : Registry α) (token : Token) (value : α) : Registry α :=
  ⟨r.table.set token value, wellFormed_set r.wellFormed value⟩

def allocate (pageAvailable : Bool) (make : Token → α) (r : Registry α) :
    Except AllocateError (Token × Registry α) :=
  match h : r.table.allocate pageAvailable make with
  | .ok (token, t) => .ok (token, ⟨t, wellFormed_allocate r.wellFormed h⟩)
  | .error e => .error e

def release (token : Token) (completed : Bool) (r : Registry α) : Option (α × Registry α) :=
  match h : r.table.release token completed with
  | some (value, t) => some (value, ⟨t, wellFormed_release r.wellFormed h⟩)
  | none => none

/-- Change the value of an occupied token. -/
def modify (r : Registry α) (token : Token) (f : α → α) : Registry α :=
  match r.get? token with
  | some value => r.set token (f value)
  | none => r

theorem allocate_table (h : r.allocate page make = .ok (token, r')) :
    r.table.allocate page make = .ok (token, r'.table) := by
  unfold allocate at h
  split at h
  next ht =>
    cases h
    exact ht
  next => cases h

theorem release_table (h : r.release token completed = some (value, r')) :
    r.table.release token completed = some (value, r'.table) := by
  unfold release at h
  split at h
  next ht =>
    cases h
    exact ht
  next => cases h

/-- Two occupied tokens of one slot are the same token. -/
theorem eq_of_slot_eq {left right : Token} (hleft : (r.get? left).isSome)
    (hright : (r.get? right).isSome) (hslot : left.slot = right.slot) : left = right := by
  obtain ⟨_, hl⟩ := Option.isSome_iff_exists.mp hleft
  obtain ⟨_, hr⟩ := Option.isSome_iff_exists.mp hright
  obtain ⟨s, hs, -, _⟩ := Table.get?_eq_some.mp hl
  obtain ⟨_, hs', -, _⟩ := Table.get?_eq_some.mp hr
  rw [hslot, hs', Option.some.injEq] at hs
  subst hs
  cases left
  cases right
  simp_all

/-- There are no more distinct occupied tokens than slots. -/
theorem length_le_capacity {tokens : List Token} (hnodup : tokens.Nodup)
    (hoccupied : ∀ t ∈ tokens, (r.get? t).isSome) : tokens.length ≤ r.capacity := by
  have hslots : (tokens.map Token.slot).Nodup := by
    apply hnodup.map_on
    intro left hleft right hright hslot
    exact eq_of_slot_eq (hoccupied left hleft) (hoccupied right hright) hslot
  have hsub : tokens.map Token.slot ⊆ List.range r.capacity := by
    intro index hindex
    obtain ⟨t, ht, rfl⟩ := mem_map.mp hindex
    obtain ⟨_, hvalue⟩ := Option.isSome_iff_exists.mp (hoccupied t ht)
    obtain ⟨s, hs, -⟩ := Table.get?_eq_some.mp hvalue
    have hlt := (List.getElem?_eq_some_iff.mp hs).1
    exact mem_range.mpr (lt_of_lt_of_le hlt r.wellFormed.bounded)
  have hle := (subperm_of_subset hslots hsub).length_le
  rwa [length_map, length_range] at hle

/-- Looking a token up finds a value exactly when its slot holds one. -/
theorem lookup_eq_occupied : r.lookup token = .occupied value ↔ r.get? token = some value := by
  have hwf := r.wellFormed
  unfold lookup get? Table.lookup Table.slotRef
  rw [Table.get?_eq_some]
  cases hslot : r.table.slots[token.slot]? with
  | none =>
    by_cases hcapacity : token.slot ≥ r.table.capacity
    · simp [hcapacity]
    · by_cases hpage : token.slot / pageSize * pageSize < r.table.slots.length
      · simp only [if_neg hcapacity, if_pos hpage, Slot.fresh]
        simp
        by_cases hgeneration : 1 = token.generation <;> simp [hgeneration]
      · simp [hcapacity, hpage]
  | some s =>
    have hlt := (List.getElem?_eq_some_iff.mp hslot).1
    have hbound : ¬ token.slot ≥ r.table.capacity := by
      have := hwf.bounded
      omega
    have hdone := hwf.completed s (mem_of_getElem? hslot)
    simp only [if_neg hbound, Option.some.injEq, exists_eq_left']
    by_cases hlast : s.lastCompletedGeneration = some token.generation
    · rcases hdone _ hlast with hless | hretired
      · simp only [if_pos hlast, reduceCtorEq, false_iff, not_and]
        intro _ heq
        omega
      · simp [if_pos hlast, hretired]
    · by_cases hgeneration : s.generation = token.generation
      · simp only [if_neg hlast, hgeneration, ne_eq, not_true_eq_false, if_false, and_true]
        cases s.state <;> simp
      · simp [hlast, hgeneration]

section

variable (h : r.allocate page make = .ok (token, r'))

include h

theorem get?_allocate_self : r'.get? token = some (make token) := by
  unfold get? Table.get?
  rcases Table.allocate_eq_ok (allocate_table h) with
    ⟨s, recycled, -, hslot, -, hgeneration, ht⟩ | ⟨-, -, rfl, ht⟩
  · have hlt := (List.getElem?_eq_some_iff.mp hslot).1
    rw [ht, List.getElem?_set_self hlt]
    simp [Slot.value, hgeneration]
  · rw [ht]
    simp [Slot.value]

theorem get?_allocate_ne (hne : other ≠ token) : r'.get? other = r.get? other := by
  unfold get?
  rcases Table.allocate_eq_ok (allocate_table h) with
    ⟨s, recycled, -, hslot, hvacant, hgeneration, ht⟩ | ⟨-, -, rfl, ht⟩
  · rw [ht]
    by_cases hindex : other.slot = token.slot
    · -- the same slot under another generation holds nothing before or after
      have hlt := (List.getElem?_eq_some_iff.mp hslot).1
      have hother : s.generation ≠ other.generation := by
        intro heq
        apply hne
        cases other
        cases token
        simp_all
      simp only [Table.get?, hindex, List.getElem?_set_self hlt, hslot, Option.bind_some,
        Slot.value, hvacant, if_neg hother]
    · exact Table.get?_slots_set hindex _ _
  · rw [ht]
    unfold Table.get?
    by_cases hindex : other.slot < r.table.slots.length
    · simp [List.getElem?_append_left hindex]
    · simp only [List.getElem?_append_right (Nat.le_of_not_lt hindex),
        List.getElem?_eq_none (Nat.le_of_not_lt hindex)]
      cases hdiff : other.slot - r.table.slots.length with
      | zero =>
        have hslot : other.slot = r.table.slots.length := by omega
        have hgeneration : 1 ≠ other.generation := by
          intro heq
          apply hne
          cases other
          simp_all
        simp [Slot.value, hgeneration]
      | succ => simp

theorem get?_allocate (other : Token) :
    r'.get? other = if other = token then some (make token) else r.get? other := by
  by_cases heq : other = token
  · rw [if_pos heq, heq, get?_allocate_self h]
  · rw [if_neg heq, get?_allocate_ne h heq]

end

theorem get?_release (h : r.release token completed = some (value, r')) (other : Token) :
    r'.get? other = if other = token then none else r.get? other := by
  unfold get?
  obtain ⟨s, hslot, hvalue, ht⟩ := Table.release_eq_some (release_table h)
  obtain ⟨hoccupied, _⟩ := Slot.value_eq_some.mp hvalue
  have hlt := (List.getElem?_eq_some_iff.mp hslot).1
  rw [ht]
  by_cases hindex : other.slot = token.slot
  · have hnone : (s.released completed).value other.generation = none := by
      unfold Slot.value Slot.released
      by_cases hlast : s.generation = lastGeneration <;> simp [hlast]
    by_cases heq : other = token
    · rw [if_pos heq]
      simp [Table.get?, hindex, hlt, hnone]
    · have hother : s.generation ≠ other.generation := by
        intro hsame
        apply heq
        cases other
        cases token
        simp_all
      have hbefore : s.value other.generation = none := by
        simp [Slot.value, hoccupied, hother]
      simp only [Table.get?, hindex, List.getElem?_set_self hlt, hslot, Option.bind_some,
        hnone, hbefore, if_neg heq]
  · have hne : other ≠ token := fun heq => hindex (by rw [heq])
    rw [if_neg hne]
    exact Table.get?_slots_set hindex _ _

theorem set_self (h : r.get? token = some value) : r.set token value = r := by
  obtain ⟨_, _⟩ := r
  simp only [set, Registry.mk.injEq]
  exact Table.set_self h

theorem capacity_allocate
    (h : r.allocate page make = .ok (token, r')) : r'.capacity = r.capacity := by
  unfold capacity
  rcases Table.allocate_eq_ok (allocate_table h) with ⟨s, _, -, -, -, -, ht⟩ | ⟨-, -, -, ht⟩ <;>
    rw [ht]

theorem capacity_release (h : r.release token completed = some (value, r')) :
    r'.capacity = r.capacity := by
  obtain ⟨s, -, -, ht⟩ := Table.release_eq_some (release_table h)
  unfold capacity
  rw [ht]

end Registry

end SlotRegistry
