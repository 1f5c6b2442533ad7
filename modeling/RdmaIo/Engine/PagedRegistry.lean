/-
The generational registries of connections, listeners and operations, as they are stored:
a directory of pages that are allocated when their first slot is handed out, a stack of
released slots and the number of the next slot that was never used.

The registry represents a flat slot table, and every call on it is the table's.  The history
of a registry records the tokens it has issued and taken back.
-/
import RdmaIo.Lib.SlotHistory
import RdmaIo.Engine.IoCore

namespace RdmaIo.Engine

open SlotRegistry

universe u

variable {T : Type u}

/-- `usize::MAX` of a 64-bit target. -/
def usizeMax : Nat := 18446744073709551615

/-- `u32::MAX`, past which `next_unused` cannot count. -/
def u32Max : Nat := 4294967295

/-- `PagedRegistry` and `OperationRegistry`, which is the same code for operations. -/
structure PagedRegistry (T : Type u) where
  capacity : Nat
  pages : List (Option (List (Slot T)))
  recycled : List Nat
  nextUnused : Nat
  live : Nat

namespace PagedRegistry

def new (directoryAvailable : Bool) (capacity : Nat) : Except Error (PagedRegistry T) :=
  if capacity + (pageSize - 1) > usizeMax then
    .error (.invalidConfig "registry page-directory overflow")
  else if !directoryAvailable then
    .error (.invalidConfig "registry page-directory allocation failed")
  else
    let pageCount := (capacity + (pageSize - 1)) / pageSize
    .ok ⟨capacity, List.replicate pageCount none, [], 0, 0⟩

variable (r : PagedRegistry T) (index : Nat)

/-- The entry an index has in the pages that exist. -/
def slotAt : Option (Slot T) :=
  (r.pages[index / pageSize]?).join.bind fun page => page[index % pageSize]?

def slotRef : Option (Slot T) :=
  if index ≥ r.capacity then none else r.slotAt index

/-- The entry of an index for writing, with the registry after its page was allocated. -/
def slotMut (allocatePage pageAvailable : Bool) (index : Nat) (r : PagedRegistry T) :
    Except AllocateError (Slot T × PagedRegistry T) :=
  if index ≥ r.capacity then .error .capacityExhausted
  else match (r.pages[index / pageSize]?).join with
    | none =>
      if !allocatePage then .error .capacityExhausted
      else if !pageAvailable then .error .pageAllocationFailed
      else .ok (.fresh, { r with
        pages := r.pages.set (index / pageSize)
          (some (List.replicate pageSize .fresh)) })
    | some page =>
      match page[index % pageSize]? with
      | some s => .ok (s, r)
      -- a page has all its entries
      | none => .error .capacityExhausted

/-- Write the entry that `slotMut` gave out. -/
def setSlot (s : Slot T) : PagedRegistry T :=
  { r with
    pages := r.pages.modify (index / pageSize) fun page =>
      page.map fun entries => entries.set (index % pageSize) s }

/-- The slot to hand out and whether it was released before. -/
def takeIndex : Except AllocateError (Nat × Bool × PagedRegistry T) :=
  match r.recycled with
  | index :: recycled => .ok (index, true, { r with recycled := recycled })
  | [] =>
    if r.nextUnused ≥ r.capacity then .error .capacityExhausted
    else if r.nextUnused + 1 > u32Max then .error .capacityExhausted
    else .ok (r.nextUnused, false, { r with nextUnused := r.nextUnused + 1 })

/-- Give back the slot of an allocation that fails. -/
def putBack (recycled : Bool) (r : PagedRegistry T) : PagedRegistry T :=
  if recycled then { r with recycled := index :: r.recycled }
  else { r with nextUnused := index }

/-- `allocate_owned`, and `OperationRegistry::allocate`. -/
def allocate (pageAvailable : Bool) (make : Token → T) (r : PagedRegistry T) :
    Except AllocateError Token × PagedRegistry T :=
  match r.takeIndex with
  | .error e => (.error e, r)
  | .ok (index, recycled, taken) =>
    match taken.slotMut true pageAvailable index with
    | .error e => (.error e, taken.putBack index recycled)
    | .ok (s, paged) =>
      match s.state with
      | .vacant =>
        let token : Token := ⟨index, s.generation⟩
        let filled := paged.setSlot index { s with state := .occupied (make token) }
        (.ok token, { filled with live := filled.live + 1 })
      | _ => (.error .nonVacantSlot, paged.putBack index recycled)

variable (token : Token)

/-- `lookup_ref`, and `OperationRegistry::lookup`. -/
def lookupRef : Lookup T :=
  match r.slotRef token.slot with
  | none => .unknown
  | some s =>
    if s.lastCompletedGeneration = some token.generation then .duplicate
    else if s.generation ≠ token.generation then .stale
    else match s.state with
      | .occupied value => .occupied value
      | .vacant => .unknown
      | .retired => .retired

/-- The value that `get_mut` gives out. -/
def getMut : Option T :=
  match r.slotMut false false token.slot with
  | .error _ => none
  | .ok (s, _) =>
    if s.generation ≠ token.generation then none
    else match s.state with
      | .occupied value => some value
      | _ => none

/-- What the caller of `get_mut` does with the value. -/
def update (f : T → T) (r : PagedRegistry T) : PagedRegistry T :=
  match r.slotMut false false token.slot with
  | .error _ => r
  | .ok (s, _) =>
    if s.generation ≠ token.generation then r
    else match s.state with
      | .occupied value => r.setSlot token.slot { s with state := .occupied (f value) }
      | _ => r

def release (completed : Bool) (r : PagedRegistry T) : Option T × PagedRegistry T :=
  match r.slotMut false false token.slot with
  | .error _ => (none, r)
  | .ok (s, _) =>
    if s.generation ≠ token.generation then (none, r)
    else match s.state with
      | .occupied value =>
        let last := if completed then some token.generation
          else s.lastCompletedGeneration
        let freed :=
          if s.generation = u32Max then
            r.setSlot token.slot ⟨s.generation, .retired, last⟩
          else
            let vacated := r.setSlot token.slot ⟨s.generation + 1, .vacant, last⟩
            { vacated with recycled := token.slot :: vacated.recycled }
        (some value, { freed with live := freed.live - 1 })
      | _ => (none, r)

/-- The slots that can still be handed out: those released and those never used. -/
def free : Nat := r.recycled.length + (r.capacity - r.nextUnused)

/-- How many entries of the registry are in a state. -/
def count (p : Slot T → Bool) (r : PagedRegistry T) : Nat :=
  (List.range r.capacity).countP fun index => (r.slotRef index).any p

section

variable (r : PagedRegistry T) (index : Nat) (s : Slot T)

@[simp] theorem capacity_setSlot : (r.setSlot index s).capacity = r.capacity := rfl

@[simp] theorem recycled_setSlot : (r.setSlot index s).recycled = r.recycled := rfl

@[simp] theorem nextUnused_setSlot : (r.setSlot index s).nextUnused = r.nextUnused := rfl

@[simp] theorem live_setSlot : (r.setSlot index s).live = r.live := rfl

end

/-- The directory covers the capacity, and a page has all its entries. -/
structure Paged (r : PagedRegistry T) : Prop where
  covered : ∀ index < r.capacity, index / pageSize < r.pages.length
  full : ∀ (number : Nat) (page : List (Slot T)), r.pages[number]? = some (some page) →
    page.length = pageSize

variable {r r' : PagedRegistry T} {index : Nat}

theorem pageSize_pos : 0 < pageSize := by decide

theorem index_eq_iff {i j : Nat} :
    i = j ↔ i / pageSize = j / pageSize ∧ i % pageSize = j % pageSize := by
  constructor
  · rintro rfl
    exact ⟨rfl, rfl⟩
  · rintro ⟨hdiv, hmod⟩
    rw [← Nat.div_add_mod i pageSize, ← Nat.div_add_mod j pageSize, hdiv, hmod]

theorem join_eq_some {β : Type u} {o : Option (Option β)} {b : β} :
    o.join = some b ↔ o = some (some b) := by
  cases o with
  | none => simp
  | some => simp

/-- A write is seen at its own index and nowhere else. -/
theorem slotAt_setSlot (s : Slot T) (other : Nat) : (r.setSlot index s).slotAt other =
      if other = index then (r.slotAt index).map fun _ => s else r.slotAt other := by
  by_cases hpage : other / pageSize = index / pageSize
  · by_cases hentry : other % pageSize = index % pageSize
    · rw [if_pos (index_eq_iff.mpr ⟨hpage, hentry⟩)]
      simp only [slotAt, setSlot, hpage, hentry, List.getElem?_modify_eq]
      cases hget : r.pages[index / pageSize]? with
      | none => rfl
      | some page =>
        cases page with
        | none => rfl
        | some => simp [List.getElem?_set_self', Function.const_def]
    · rw [if_neg fun heq => hentry (index_eq_iff.mp heq).2]
      simp only [slotAt, setSlot, hpage, List.getElem?_modify_eq]
      cases hget : r.pages[index / pageSize]? with
      | none => rfl
      | some page =>
        cases page with
        | none => rfl
        | some => simp [List.getElem?_set_ne (Ne.symm hentry)]
  · rw [if_neg fun heq => hpage (index_eq_iff.mp heq).1]
    simp only [slotAt, setSlot, List.getElem?_modify, if_neg (Ne.symm hpage), Option.map_eq_map,
      Option.map_id']

theorem paged_setSlot (h : r.Paged) (s : Slot T) : (r.setSlot index s).Paged := by
  constructor
  · intro other hother
    simpa [setSlot] using h.covered other hother
  · intro number page hpage
    simp only [setSlot, List.getElem?_modify] at hpage
    cases hget : r.pages[number]? with
    | none => simp [hget] at hpage
    | some entries =>
      cases entries with
      | none => by_cases heq : index / pageSize = number <;> simp [hget, heq] at hpage
      | some entries =>
        have hfull := h.full number entries hget
        by_cases heq : index / pageSize = number
        · simp only [hget, heq, if_true, Option.map_eq_map, Option.map_some,
            Option.some.injEq] at hpage
          rw [← hpage, List.length_set, hfull]
        · simp only [hget, heq, if_false, Option.map_eq_map, Option.map_some,
            Option.some.injEq] at hpage
          rw [← hpage, hfull]

/-- The entry of an index in an existing page. -/
theorem slotMut_of_slotAt {s : Slot T} {allocatePage page : Bool} (hlt : index < r.capacity)
    (h : r.slotAt index = some s) : r.slotMut allocatePage page index = .ok (s, r) := by
  obtain ⟨_, hentries, hs⟩ := Option.bind_eq_some_iff.mp h
  simp only [slotMut, if_neg (not_le.mpr hlt), hentries, hs]

/-- Without its entry an index has no page. -/
theorem page_of_slotAt_none (hpaged : r.Paged) (h : r.slotAt index = none) :
    (r.pages[index / pageSize]?).join = none := by
  cases hpage : (r.pages[index / pageSize]?).join with
  | none => rfl
  | some entries =>
    have hfull := hpaged.full _ entries (join_eq_some.mp hpage)
    have hlt : index % pageSize < entries.length := by
      rw [hfull]
      exact Nat.mod_lt index pageSize_pos
    simp [slotAt, hpage, List.getElem?_eq_getElem hlt] at h

/-- The registry after the page of an index was allocated. -/
def withPage (r : PagedRegistry T) (index : Nat) : PagedRegistry T :=
  { r with pages := r.pages.set (index / pageSize) (some (List.replicate pageSize .fresh)) }

theorem slotMut_of_missing {page : Bool} (hpaged : r.Paged) (hlt : index < r.capacity)
    (h : r.slotAt index = none) : r.slotMut true page index =
      if page then .ok (.fresh, r.withPage index) else .error .pageAllocationFailed := by
  simp only [slotMut, if_neg (not_le.mpr hlt), page_of_slotAt_none hpaged h]
  cases page <;> rfl

theorem slotAt_withPage (hpaged : r.Paged) (hlt : index < r.capacity) (other : Nat) :
    (r.withPage index).slotAt other =
      if other / pageSize = index / pageSize then some .fresh else r.slotAt other := by
  have hpage := hpaged.covered index hlt
  by_cases heq : other / pageSize = index / pageSize
  · have hentry : other % pageSize < pageSize := Nat.mod_lt other pageSize_pos
    simp [slotAt, withPage, heq, hpage, hentry]
  · simp only [slotAt, withPage, if_neg heq, List.getElem?_set_ne (Ne.symm heq)]

theorem paged_withPage (hpaged : r.Paged) : (r.withPage index).Paged := by
  constructor
  · intro other hother
    simpa [withPage] using hpaged.covered other hother
  · intro number page hpage
    by_cases heq : index / pageSize = number
    · simp only [withPage, heq, List.getElem?_set_self'] at hpage
      cases hget : r.pages[number]? with
      | none => simp [hget] at hpage
      | some =>
        simp only [hget, Option.map_eq_map, Option.map_some, Function.const_apply,
          Option.some.injEq] at hpage
        rw [← hpage, List.length_replicate]
    · simp only [withPage, List.getElem?_set_ne heq] at hpage
      exact hpaged.full number page hpage

/-- A registry stores a slot table: the slots below `nextUnused` are the table's, and the
rest of the pages that exist is fresh. -/
structure Represents (r : PagedRegistry T) (t : Table T) : Prop where
  paged : r.Paged
  capacity : t.capacity = min r.capacity u32Max
  recycled : r.recycled = t.recycled
  nextUnused : r.nextUnused = t.slots.length
  live : r.live = t.live
  reads : ∀ index < r.capacity, r.slotAt index = t.read index

theorem represents_new {directory : Bool} {capacity : Nat}
    (h : new directory capacity = .ok r) : r.Represents (.new (min capacity u32Max)) := by
  unfold new at h
  split at h
  · cases h
  · split at h
    · cases h
    · cases h
      constructor
      · constructor
        · intro index hindex
          rw [List.length_replicate]
          have hsize : pageSize = 256 := rfl
          simp only [hsize] at hindex ⊢
          omega
        · intro number page hpage
          simp [List.getElem?_replicate] at hpage
      · rfl
      · rfl
      · rfl
      · rfl
      · intro index _
        simp only [slotAt, Table.read, Table.new, List.getElem?_replicate]
        split <;> rfl

variable {t t' : Table T} {token : Token}

/-- A slot handed out before is an entry of the registry. -/
theorem Represents.entry {s : Slot T} (h : r.Represents t) (hwf : t.WellFormed)
    (hs : t.slots[index]? = some s) : index < r.capacity ∧ r.slotAt index = some s := by
  have hlt := (List.getElem?_eq_some_iff.mp hs).1
  have hbounded := hwf.bounded
  have hcapacity := h.capacity
  have hindex : index < r.capacity := by omega
  exact ⟨hindex, by rw [h.reads index hindex, Table.read_of_getElem? hs]⟩

/-- Writing an entry that was handed out before is replacing the slot of the table. -/
theorem Represents.write {s : Slot T} (h : r.Represents t) (hwf : t.WellFormed)
    (hs : t.slots[index]? = some s) (s' : Slot T) (recycled : List Nat) (live : Nat) :
    Represents { r.setSlot index s' with recycled := recycled, live := live }
      { t with slots := t.slots.set index s', recycled := recycled, live := live } := by
  obtain ⟨_, hslot⟩ := h.entry hwf hs
  have hlt := (List.getElem?_eq_some_iff.mp hs).1
  have hpaged : (r.setSlot index s').Paged := paged_setSlot h.paged s'
  constructor
  · exact ⟨hpaged.covered, hpaged.full⟩
  · exact h.capacity
  · rfl
  · simpa using h.nextUnused
  · rfl
  · intro other hother
    change (r.setSlot index s').slotAt other = _
    rw [slotAt_setSlot]
    by_cases heq : other = index
    · subst heq
      simp [hslot, Table.read, hlt]
    · rw [if_neg heq, h.reads other hother]
      simp [Table.read, List.getElem?_set_ne (Ne.symm heq)]

/-- The table with one more slot. -/
def grow (t : Table T) (s : Slot T) : Table T :=
  { t with slots := t.slots ++ [s], live := t.live + 1 }

theorem read_grow_of_lt (s : Slot T) (h : index < t.slots.length) :
    (grow t s).read index = t.read index := by
  simp [Table.read, grow, List.getElem?_append_left h, List.getElem?_eq_getElem h]

theorem read_grow_self (s : Slot T) : (grow t s).read t.slots.length = some s := by
  simp [Table.read, grow]

theorem read_grow_of_gt (s : Slot T) (h : t.slots.length < index) : (grow t s).read index =
      if index / pageSize * pageSize < t.slots.length + 1 then some .fresh else none := by
  have hle : (grow t s).slots.length ≤ index := by simpa [grow] using Nat.succ_le_of_lt h
  rw [Table.read_of_length_le hle]
  simp [grow]

section

variable (h : r.Represents t)

include h

/-- The page of the next unused slot exists unless the slot is its first. -/
theorem Represents.next_entry (hlt : t.slots.length < r.capacity) :
    r.slotAt t.slots.length = if t.slots.length % pageSize = 0 then none else some .fresh := by
  rw [h.reads _ hlt, Table.read_of_length_le (le_refl _)]
  have hsize : pageSize = 256 := rfl
  by_cases hfirst : t.slots.length % pageSize = 0
  · rw [if_pos hfirst, if_neg]
    simp only [hsize] at hfirst ⊢
    omega
  · rw [if_neg hfirst, if_pos]
    simp only [hsize] at hfirst ⊢
    omega

/-- Taking the next unused slot, once its page is there, is growing the table. -/
theorem Represents.append {paged : PagedRegistry T} (hpaged : paged.Paged)
    (hcapacity : paged.capacity = r.capacity) (hrecycled : paged.recycled = r.recycled)
    (hnext : paged.nextUnused = r.nextUnused + 1) (hlive : paged.live = r.live)
    (hself : paged.slotAt t.slots.length = some .fresh)
    (hbelow : ∀ index < t.slots.length, paged.slotAt index = r.slotAt index)
    (habove : ∀ index, t.slots.length < index → index < r.capacity → paged.slotAt index =
      if index / pageSize * pageSize < t.slots.length + 1 then some .fresh else none)
    (s : Slot T) :
    Represents { paged.setSlot t.slots.length s with live := paged.live + 1 } (grow t s) := by
  have hwritten : (paged.setSlot t.slots.length s).Paged := paged_setSlot hpaged s
  constructor
  · exact ⟨hwritten.covered, hwritten.full⟩
  · exact h.capacity.trans (by rw [← hcapacity]; rfl)
  · exact hrecycled.trans h.recycled
  · simp [grow, hnext, h.nextUnused]
  · simp [grow, hlive, h.live]
  · intro other hother
    have hroom : other < r.capacity := by
      rw [← hcapacity]
      exact hother
    change (paged.setSlot t.slots.length s).slotAt other = _
    rw [slotAt_setSlot]
    rcases Nat.lt_trichotomy other t.slots.length with hless | rfl | hmore
    · rw [if_neg (ne_of_lt hless), hbelow other hless, h.reads other hroom,
        read_grow_of_lt s hless]
    · rw [if_pos rfl, hself, read_grow_self]
      rfl
    · rw [if_neg (ne_of_gt hmore), habove other hmore hroom, read_grow_of_gt s hmore]

/-- A registry whose next slot lies in an existing page. -/
theorem Represents.append_in_page (hlt : t.slots.length < r.capacity)
    (hfirst : t.slots.length % pageSize ≠ 0) (s : Slot T) : Represents
      { setSlot { r with nextUnused := r.nextUnused + 1 } t.slots.length s with
        live := r.live + 1 } (grow t s) := by
  have hsame : ∀ index,
      slotAt { r with nextUnused := r.nextUnused + 1 } index = r.slotAt index := fun _ => rfl
  have hself := h.next_entry hlt
  rw [if_neg hfirst] at hself
  have htaken : Paged { r with nextUnused := r.nextUnused + 1 } :=
    ⟨h.paged.covered, h.paged.full⟩
  refine h.append htaken rfl rfl rfl rfl hself (fun index _ => hsame index) ?_ s
  intro index hmore hindex
  rw [hsame, h.reads index hindex, Table.read_of_length_le (le_of_lt hmore)]
  have hsize : pageSize = 256 := rfl
  congr 1
  simp only [hsize] at hfirst ⊢
  exact propext (by omega)

/-- A registry whose next slot is the first of a page that was just allocated. -/
theorem Represents.append_with_page (hlt : t.slots.length < r.capacity)
    (hfirst : t.slots.length % pageSize = 0) (s : Slot T) : Represents
      { setSlot (withPage { r with nextUnused := r.nextUnused + 1 } t.slots.length)
          t.slots.length s with
        live := r.live + 1 } (grow t s) := by
  have htaken : Paged { r with nextUnused := r.nextUnused + 1 } :=
    ⟨h.paged.covered, h.paged.full⟩
  have hsame : ∀ index,
      slotAt { r with nextUnused := r.nextUnused + 1 } index = r.slotAt index := fun _ => rfl
  have hsize : pageSize = 256 := rfl
  have hadded : Paged (withPage { r with nextUnused := r.nextUnused + 1 } t.slots.length) :=
    paged_withPage htaken
  refine h.append hadded rfl rfl rfl rfl ?_ ?_ ?_ s
  · rw [slotAt_withPage htaken hlt, if_pos rfl]
  · intro index hless
    rw [slotAt_withPage htaken hlt, if_neg, hsame]
    simp only [hsize] at hfirst ⊢
    omega
  · intro index hmore hindex
    rw [slotAt_withPage htaken hlt, hsame, h.reads index hindex,
      Table.read_of_length_le (le_of_lt hmore)]
    simp only [hsize] at hfirst ⊢
    by_cases hpage : index / 256 = t.slots.length / 256
    · rw [if_pos hpage, if_pos (by omega)]
    · rw [if_neg hpage]
      congr 1
      exact propext (by omega)

/-- Allocation is the table's, and a failed one leaves the registry as it was. -/
theorem Represents.allocated (hwf : t.WellFormed) (page : Bool) (make : Token → T) :
    (∃ token t', t.allocate page make = .ok (token, t') ∧
        (r.allocate page make).1 = .ok token ∧
        (r.allocate page make).2.Represents t') ∨
      ∃ e, t.allocate page make = .error e ∧ r.allocate page make = (.error e, r) := by
  cases hrecycled : t.recycled with
  | cons index recycled =>
    obtain ⟨s, hs, hvacant⟩ := (hwf.free index).mp (by simp [hrecycled])
    obtain ⟨hindex, hslot⟩ := h.entry hwf hs
    have htake : r.takeIndex = .ok (index, true, { r with recycled := recycled }) := by
      simp [takeIndex, h.recycled, hrecycled]
    have hentry : slotMut true page index { r with recycled := recycled } =
        .ok (s, { r with recycled := recycled }) := slotMut_of_slotAt hindex hslot
    left
    refine ⟨⟨index, s.generation⟩, { t with
      slots := t.slots.set index { s with state := .occupied (make ⟨index, s.generation⟩) }
      recycled := recycled, live := r.live + 1 }, ?_, ?_, ?_⟩
    · simp only [Table.allocate, hrecycled, hs, hvacant, h.live]
    · simp only [allocate, htake, hentry, hvacant]
    · simp only [allocate, htake, hentry, hvacant]
      exact h.write hwf hs _ recycled (r.live + 1)
  | nil =>
    have hempty : r.recycled = [] := h.recycled.trans hrecycled
    have hcapacity := h.capacity
    have hnext := h.nextUnused
    by_cases hfull : t.slots.length ≥ t.capacity
    · have htake : r.takeIndex = .error .capacityExhausted := by
        simp only [takeIndex, hempty]
        by_cases hroom : r.nextUnused ≥ r.capacity
        · rw [if_pos hroom]
        · rw [if_neg hroom, if_pos (by omega)]
      right
      refine ⟨.capacityExhausted, ?_, ?_⟩
      · simp only [Table.allocate, hrecycled, if_pos hfull]
      · simp only [allocate, htake]
    · have hlt : t.slots.length < r.capacity := by omega
      have htake : r.takeIndex =
          .ok (t.slots.length, false, { r with nextUnused := r.nextUnused + 1 }) := by
        simp only [takeIndex, hempty]
        rw [if_neg (by omega), if_neg (by omega), hnext]
      have htaken : Paged { r with nextUnused := r.nextUnused + 1 } :=
        ⟨h.paged.covered, h.paged.full⟩
      have hslot := h.next_entry hlt
      by_cases hfirst : t.slots.length % pageSize = 0
      · rw [if_pos hfirst] at hslot
        have hentry := @slotMut_of_missing _ _ _ page htaken hlt hslot
        cases page with
        | false =>
          right
          refine ⟨.pageAllocationFailed, ?_, ?_⟩
          · simp [Table.allocate, hrecycled, hfirst, Nat.lt_of_not_le hfull]
          · simp only [allocate, htake, hentry]
            simp [putBack, ← hnext]
        | true =>
          left
          refine ⟨⟨t.slots.length, 1⟩,
            grow t ⟨1, .occupied (make ⟨t.slots.length, 1⟩), none⟩, ?_, ?_, ?_⟩
          · simp [Table.allocate, hrecycled, Nat.lt_of_not_le hfull, grow]
          · simp only [allocate, htake, hentry, if_true, Slot.fresh]
          · simp only [allocate, htake, hentry, if_true, Slot.fresh]
            exact h.append_with_page hlt hfirst _
      · rw [if_neg hfirst] at hslot
        have hentry : slotMut true page t.slots.length { r with nextUnused := r.nextUnused + 1 } =
              .ok (.fresh, { r with nextUnused := r.nextUnused + 1 }) :=
          slotMut_of_slotAt hlt hslot
        left
        refine ⟨⟨t.slots.length, 1⟩,
          grow t ⟨1, .occupied (make ⟨t.slots.length, 1⟩), none⟩, ?_, ?_, ?_⟩
        · simp [Table.allocate, hrecycled, hfirst, Nat.lt_of_not_le hfull, grow]
        · simp only [allocate, htake, hentry, Slot.fresh]
        · simp only [allocate, htake, hentry, Slot.fresh]
          exact h.append_in_page hlt hfirst _

end

/-- Without the right to allocate a page, `slot_mut` finds what `slot_ref` finds. -/
theorem slotMut_eq_slotRef (hpaged : r.Paged) (index : Nat) : r.slotMut false false index =
      match r.slotRef index with
      | some s => .ok (s, r)
      | none => .error .capacityExhausted := by
  by_cases hlt : index < r.capacity
  · simp only [slotRef, if_neg (not_le.mpr hlt)]
    cases hslot : r.slotAt index with
    | some => exact slotMut_of_slotAt hlt hslot
    | none =>
      simp only [slotMut, if_neg (not_le.mpr hlt), page_of_slotAt_none hpaged hslot]
      rfl
  · simp only [slotRef, slotMut, if_pos (Nat.le_of_not_lt hlt)]

/-- The registry holds a value for a token exactly when the table does. -/
theorem Represents.value_eq (h : r.Represents t) (hwf : t.WellFormed) (token : Token) :
    (r.slotRef token.slot).bind (Slot.value token.generation) = t.get? token := by
  cases hs : t.slots[token.slot]? with
  | some =>
    obtain ⟨hlt, hslot⟩ := h.entry hwf hs
    simp [slotRef, not_le.mpr hlt, hslot, Table.get?, hs]
  | none =>
    have hnone : t.get? token = none := by simp [Table.get?, hs]
    rw [hnone]
    by_cases hlt : token.slot < r.capacity
    · have hlength := List.getElem?_eq_none_iff.mp hs
      simp only [slotRef, if_neg (not_le.mpr hlt), h.reads _ hlt,
        Table.read_of_length_le hlength]
      split <;> rfl
    · simp [slotRef, Nat.le_of_not_lt hlt]

theorem getMut_eq (hpaged : r.Paged) (token : Token) :
    r.getMut token = (r.slotRef token.slot).bind (Slot.value token.generation) := by
  rw [getMut, slotMut_eq_slotRef hpaged]
  cases r.slotRef token.slot with
  | none => rfl
  | some s =>
    by_cases hgeneration : s.generation = token.generation
    · cases hstate : s.state <;> simp [Slot.value, hgeneration, hstate]
    · cases hstate : s.state <;> simp [Slot.value, hgeneration, hstate]

variable (h : r.Represents t) (hwf : t.WellFormed)

include h hwf

theorem Represents.getMut_eq (token : Token) : r.getMut token = t.get? token :=
  (PagedRegistry.getMut_eq h.paged token).trans (h.value_eq hwf token)

variable {value : T}

/-- A lookup that finds a value finds the table's. -/
theorem Represents.get?_of_lookupRef
    (hlookup : r.lookupRef token = .occupied value) : t.get? token = some value := by
  rw [← h.value_eq hwf]
  unfold lookupRef at hlookup
  cases hslot : r.slotRef token.slot with
  | none => simp [hslot] at hlookup
  | some =>
    simp only [hslot] at hlookup
    split at hlookup
    · cases hlookup
    · split at hlookup
      · cases hlookup
      next hgeneration =>
        split at hlookup
        next hstate =>
          cases hlookup
          exact Slot.value_eq_some.mpr ⟨hstate, not_not.mp hgeneration⟩
        next => cases hlookup
        next => cases hlookup

/-- A release of a token without a value changes nothing. -/
theorem Represents.release_of_none (hnone : t.get? token = none) (completed : Bool) :
    r.release token completed = (none, r) := by
  rw [← h.value_eq hwf] at hnone
  rw [release, slotMut_eq_slotRef h.paged]
  cases hslot : r.slotRef token.slot with
  | none => rfl
  | some s =>
    simp only [hslot, Option.bind_some, Slot.value] at hnone
    by_cases hgeneration : s.generation = token.generation
    · cases hstate : s.state <;> simp_all
    · simp [hgeneration]

theorem Represents.update_of_none (hnone : t.get? token = none) (f : T → T) :
    r.update token f = r := by
  rw [← h.value_eq hwf] at hnone
  rw [update, slotMut_eq_slotRef h.paged]
  cases hslot : r.slotRef token.slot with
  | none => rfl
  | some s =>
    simp only [hslot, Option.bind_some, Slot.value] at hnone
    by_cases hgeneration : s.generation = token.generation
    · cases hstate : s.state <;> simp_all
    · simp [hgeneration]

/-- The entry of a token that holds a value. -/
theorem Represents.occupied_entry (hget : t.get? token = some value) :
    ∃ s, t.slots[token.slot]? = some s ∧ s.state = .occupied value ∧
      s.generation = token.generation ∧ r.slotMut false false token.slot = .ok (s, r) := by
  obtain ⟨s, hs, hstate, hgeneration⟩ := Table.get?_eq_some.mp hget
  obtain ⟨hlt, hslot⟩ := h.entry hwf hs
  exact ⟨s, hs, hstate, hgeneration, slotMut_of_slotAt hlt hslot⟩

/-- The release of an occupied token is the table's. -/
theorem Represents.released (hget : t.get? token = some value) (completed : Bool) :
    ∃ t', t.release token completed = some (value, t') ∧
      (r.release token completed).1 = some value ∧
      (r.release token completed).2.Represents t' := by
  obtain ⟨s, hs, hstate, hgeneration, hentry⟩ := h.occupied_entry hwf hget
  have hvalue : s.value token.generation = some value :=
    Slot.value_eq_some.mpr ⟨hstate, hgeneration⟩
  refine ⟨{ t with
    slots := t.slots.set token.slot (s.released completed)
    recycled := if s.generation = lastGeneration then t.recycled else token.slot :: t.recycled
    live := t.live - 1 }, ?_, ?_, ?_⟩
  · simp only [Table.release, hs, hvalue]
  · simp only [release, hentry, hgeneration, hstate, ne_eq, not_true_eq_false, if_false]
  · have hmax : u32Max = lastGeneration := rfl
    have hwrite := h.write hwf hs (s.released completed)
      (if s.generation = lastGeneration then t.recycled else token.slot :: t.recycled) (t.live - 1)
    simp only [release, hentry, ne_eq, hgeneration, not_true_eq_false, if_false, hstate]
    by_cases hlast : token.generation = lastGeneration
    · simpa [Slot.released, hgeneration, hlast, hmax, h.live, h.recycled] using hwrite
    · simpa [Slot.released, hgeneration, hlast, hmax, h.live, h.recycled] using hwrite

/-- What a caller of `get_mut` writes, it writes to the table. -/
theorem Represents.updated (hget : t.get? token = some value) (f : T → T) :
    (r.update token f).Represents (t.set token (f value)) := by
  obtain ⟨s, hs, hstate, hgeneration, hentry⟩ := h.occupied_entry hwf hget
  obtain ⟨_, hs', -, heq⟩ := Table.set_eq (f value) hget
  rw [hs, Option.some.injEq] at hs'
  subst hs'
  have hupdate : r.update token f =
      r.setSlot token.slot { s with state := .occupied (f value) } := by
    simp [update, hentry, hgeneration, hstate]
  have hwrite := h.write hwf hs { s with state := .occupied (f value) } r.recycled r.live
  rw [hupdate, heq]
  simp only [h.recycled, h.live] at hwrite
  convert hwrite using 1
  simp [setSlot, h.recycled, h.live]

/-- The registry counts what the table counts. -/
theorem Represents.count_eq (p : Slot T → Bool) (hfresh : p .fresh = false) :
    r.count p = t.slots.countP p := by
  have hbounded := hwf.bounded
  have hcapacity := h.capacity
  rw [← Table.countP_read p hfresh (show t.slots.length ≤ r.capacity by omega)]
  apply List.countP_congr
  intro index hindex
  have hlt := List.mem_range.mp hindex
  rw [slotRef, if_neg (not_le.mpr hlt), h.reads index hlt]

end PagedRegistry

end RdmaIo.Engine
