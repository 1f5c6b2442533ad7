/-
Whole histories of a generational registry.  Beside the registry we record the tokens it has
issued, the tokens it has taken back and the slots whose last generation was released, and
show over every sequence of calls that the registry never confuses two of them.
-/
import RdmaIo.Engine.PagedRegistry

namespace RdmaIo.Engine

open PagedRegistry
open SlotRegistry

universe u

variable {T : Type u}

/-- The calls on a registry.  An allocation fails when the registry is full or the page of its
slot cannot be allocated. -/
inductive RegistryCall (T : Type u) where
  | allocate (pageAvailable : Bool) (make : Token → T)
  | lookup (token : Token)
  | update (token : Token) (f : T → T)
  | release (token : Token) (completed : Bool)

structure History (T : Type u) where
  registry : PagedRegistry T
  issued : List Token
  released : List Token
  exhausted : List Nat

namespace History

def start (registry : PagedRegistry T) : History T := ⟨registry, [], [], []⟩

def call (h : History T) : RegistryCall T → History T
  | .allocate pageAvailable make =>
    match h.registry.allocate pageAvailable make with
    | (.ok token, registry) =>
      { h with registry := registry, issued := token :: h.issued }
    | (.error _, registry) => { h with registry := registry }
  | .lookup _ => h
  | .update token f => { h with registry := h.registry.update token f }
  | .release token completed =>
    match h.registry.release token completed with
    | (some _, registry) =>
      { h with
        registry := registry
        released := token :: h.released
        exhausted :=
          if token.generation = u32Max then token.slot :: h.exhausted
          else h.exhausted }
    | (none, registry) => { h with registry := registry }

def calls (h : History T) (trace : List (RegistryCall T)) : History T :=
  trace.foldl call h

/-- The record agrees with the table that the registry stores. -/
structure Sound (h : History T) (t : Table T) : Prop where
  represents : h.registry.Represents t
  wellFormed : t.WellFormed
  issued : ∀ token ∈ h.issued, t.Issued token
  nodup : h.issued.Nodup
  released : ∀ token ∈ h.released, t.Gone token
  exhausted : ∀ index ∈ h.exhausted, t.RetiredAt index

variable {h : History T} {t t' : Table T}

section

variable (hsound : h.Sound t)

include hsound

/-- What was recorded before stays true while the table advances. -/
theorem Sound.advance {registry : PagedRegistry T} (hrepresents : registry.Represents t')
    (hwf : t'.WellFormed) (hadvances : t.Advances t') :
    Sound { h with registry := registry } t' := by
  constructor
  · exact hrepresents
  · exact hwf
  · intro token htoken
    exact (hsound.issued token htoken).mono hadvances
  · exact hsound.nodup
  · intro token htoken
    exact (hsound.released token htoken).mono hadvances
  · intro index hindex
    exact (hsound.exhausted index hindex).mono hadvances hwf.generations

theorem Sound.allocate (page : Bool) (make : Token → T) :
    ∃ t', (h.call (.allocate page make)).Sound t' := by
  rcases hsound.represents.allocated hsound.wellFormed page make with
    ⟨token, t', htable, hok, hrepresents⟩ | ⟨e, -, herror⟩
  · have hadvances := Table.advances_allocate htable
    have hwf := Registry.wellFormed_allocate hsound.wellFormed htable
    obtain ⟨hnew, hissued⟩ := Table.issued_allocate htable
    have hlater := hsound.advance hrepresents hwf hadvances
    have hcall : h.call (.allocate page make) =
        { h with
          registry := (h.registry.allocate page make).2
          issued := token :: h.issued } := by
      rw [call]
      cases hresult : h.registry.allocate page make with
      | mk =>
        rw [hresult] at hok
        cases hok
        rfl
    refine ⟨t', ?_⟩
    rw [hcall]
    constructor
    · exact hrepresents
    · exact hwf
    · exact List.forall_mem_cons.mpr ⟨hissued, hlater.issued⟩
    · apply List.nodup_cons.mpr
      exact ⟨fun hmem => hnew (hsound.issued token hmem), hsound.nodup⟩
    · exact hlater.released
    · exact hlater.exhausted
  · refine ⟨t, ?_⟩
    simp only [call, herror]
    exact hsound

theorem Sound.release (token : Token) (completed : Bool) :
    ∃ t', (h.call (.release token completed)).Sound t' := by
  cases hget : t.get? token with
  | none =>
    refine ⟨t, ?_⟩
    simp only [call, hsound.represents.release_of_none hsound.wellFormed hget completed]
    exact hsound
  | some =>
    obtain ⟨t', htable, hok, hrepresents⟩ :=
      hsound.represents.released hsound.wellFormed hget completed
    have hadvances := Table.advances_release htable
    have hwf := Registry.wellFormed_release hsound.wellFormed htable
    have hlater := hsound.advance hrepresents hwf hadvances
    have hcall : h.call (.release token completed) =
        { h with
          registry := (h.registry.release token completed).2
          released := token :: h.released
          exhausted :=
            if token.generation = u32Max then token.slot :: h.exhausted
            else h.exhausted } := by
      rw [call]
      cases hresult : h.registry.release token completed with
      | mk =>
        rw [hresult] at hok
        cases hok
        rfl
    refine ⟨t', ?_⟩
    rw [hcall]
    constructor
    · exact hrepresents
    · exact hwf
    · exact hlater.issued
    · exact hsound.nodup
    · exact List.forall_mem_cons.mpr ⟨Table.gone_release htable, hlater.released⟩
    · intro index hindex
      by_cases hlast : token.generation = u32Max
      · simp only [if_pos hlast, List.mem_cons] at hindex
        rcases hindex with rfl | hold
        · exact Table.retiredAt_release htable hlast
        · exact hlater.exhausted index hold
      · simp only [if_neg hlast] at hindex
        exact hlater.exhausted index hindex

theorem Sound.update (token : Token) (f : T → T) : ∃ t', (h.call (.update token f)).Sound t' := by
  cases hget : t.get? token with
  | none =>
    refine ⟨t, ?_⟩
    simp only [call, hsound.represents.update_of_none hsound.wellFormed hget f]
    exact hsound
  | some value =>
    refine ⟨t.set token (f value), ?_⟩
    apply hsound.advance
    · exact hsound.represents.updated hsound.wellFormed hget f
    · exact Registry.wellFormed_set hsound.wellFormed (f value)
    · exact Table.advances_set_value (f value)

theorem Sound.call (c : RegistryCall T) : ∃ t', (h.call c).Sound t' := by
  cases c with
  | allocate page make => exact hsound.allocate page make
  | lookup => exact ⟨t, hsound⟩
  | update token f => exact hsound.update token f
  | release token completed => exact hsound.release token completed

theorem Sound.calls (trace : List (RegistryCall T)) : ∃ t', (h.calls trace).Sound t' := by
  induction trace generalizing h t with
  | nil => exact ⟨t, hsound⟩
  | cons c _ ih =>
    obtain ⟨_, ht'⟩ := hsound.call c
    exact ih ht'

end

theorem sound_start {registry : PagedRegistry T} {directory : Bool} {capacity : Nat}
    (hnew : new directory capacity = .ok registry) :
    (start registry).Sound (.new (min capacity u32Max)) := by
  constructor
  · exact represents_new hnew
  · exact Table.wellFormed_new _
  · simp [start]
  · exact List.nodup_nil
  · simp [start]
  · simp [start]

variable {token : Token}

/-- A token is read back from its encoding. -/
theorem decode_encode (hslot : token.slot < 2 ^ 32) : decode (encode token) = token := by
  cases token with
  | mk =>
    simp only [decode, encode, Token.mk.injEq] at hslot ⊢
    omega

section

variable (hsound : h.Sound t)

include hsound

theorem Sound.slot_lt (hissued : t.Issued token) : token.slot < 2 ^ 32 := by
  obtain ⟨s, hs, -⟩ := hissued
  have hlt := (List.getElem?_eq_some_iff.mp hs).1
  have hbounded := hsound.wellFormed.bounded
  have hcapacity := hsound.represents.capacity
  have hmax : u32Max = 4294967295 := rfl
  omega

theorem Sound.encode_nodup : (h.issued.map encode).Nodup := by
  apply hsound.nodup.map_on
  intro left hleft right hright heq
  rw [← decode_encode (hsound.slot_lt (hsound.issued left hleft)), heq,
    decode_encode (hsound.slot_lt (hsound.issued right hright))]

theorem Sound.released_unoccupied (htoken : token ∈ h.released) :
    (∀ value, h.registry.lookupRef token ≠ .occupied value) ∧
      h.registry.getMut token = none := by
  have hnone := (hsound.released token htoken).get?_eq_none
  constructor
  · intro value hlookup
    rw [hsound.represents.get?_of_lookupRef hsound.wellFormed hlookup] at hnone
    cases hnone
  · rw [hsound.represents.getMut_eq hsound.wellFormed, hnone]

theorem Sound.exhausted_retired {index : Nat} (hindex : index ∈ h.exhausted) :
    (h.registry.slotRef index).any Slot.isRetired = true ∧ index ∉ h.registry.recycled := by
  obtain ⟨s, hs, -, hretired⟩ := hsound.exhausted index hindex
  obtain ⟨hlt, hslot⟩ := hsound.represents.entry hsound.wellFormed hs
  constructor
  · simp [slotRef, not_le.mpr hlt, hslot, Slot.isRetired, hretired]
  · rw [hsound.represents.recycled, hsound.wellFormed.free]
    rintro ⟨_, hs', hvacant⟩
    rw [hs, Option.some.injEq] at hs'
    rw [hs', hvacant] at hretired
    cases hretired

theorem Sound.live_eq : h.registry.live = h.registry.count Slot.isOccupied := by
  rw [hsound.represents.count_eq hsound.wellFormed Slot.isOccupied rfl, hsound.represents.live,
    hsound.wellFormed.live_eq_countP]

theorem Sound.partition : h.registry.live + h.registry.free + h.registry.count Slot.isRetired =
      h.registry.capacity := by
  have hparts := hsound.wellFormed.partition
  have hbounded := hsound.wellFormed.bounded
  have hcapacity := hsound.represents.capacity
  rw [hsound.represents.count_eq hsound.wellFormed Slot.isRetired rfl, free,
    hsound.represents.live, hsound.represents.recycled, hsound.represents.nextUnused]
  omega

/-- The free list holds exactly the slots below `nextUnused` that are vacant. -/
theorem Sound.mem_recycled (index : Nat) : index ∈ h.registry.recycled ↔
      index < h.registry.nextUnused ∧ (h.registry.slotRef index).any Slot.isVacant = true := by
  rw [hsound.represents.recycled, hsound.wellFormed.free, hsound.represents.nextUnused]
  constructor
  · rintro ⟨s, hs, hvacant⟩
    obtain ⟨hlt, hslot⟩ := hsound.represents.entry hsound.wellFormed hs
    refine ⟨(List.getElem?_eq_some_iff.mp hs).1, ?_⟩
    simp [slotRef, not_le.mpr hlt, hslot, Slot.isVacant, hvacant]
  · rintro ⟨hlt, hvacant⟩
    have hs := List.getElem?_eq_getElem hlt
    obtain ⟨hroom, hslot⟩ := hsound.represents.entry hsound.wellFormed hs
    simp only [slotRef, if_neg (not_le.mpr hroom), hslot, Option.any_some] at hvacant
    exact ⟨_, hs, Slot.isVacant_iff.mp hvacant⟩

theorem Sound.failed_allocate {page : Bool} {make : Token → T} {e : AllocateError}
    (hfailed : (h.registry.allocate page make).1 = .error e) :
    (h.registry.allocate page make).2 = h.registry := by
  rcases hsound.represents.allocated hsound.wellFormed page make with
    ⟨token, t', -, hok, -⟩ | ⟨e', -, herror⟩
  · rw [hok] at hfailed
    cases hfailed
  · rw [herror]

theorem Sound.failed_release {completed : Bool}
    (hfailed : (h.registry.release token completed).1 = none) :
    (h.registry.release token completed).2 = h.registry := by
  cases hget : t.get? token with
  | none => rw [hsound.represents.release_of_none hsound.wellFormed hget completed]
  | some =>
    obtain ⟨_, -, hok, -⟩ :=
      hsound.represents.released hsound.wellFormed hget completed
    rw [hok] at hfailed
    cases hfailed

theorem Sound.stale_release (htoken : token ∈ h.released) (completed : Bool) :
    h.registry.release token completed = (none, h.registry) := by
  have hnone := (hsound.released token htoken).get?_eq_none
  exact hsound.represents.release_of_none hsound.wellFormed hnone completed

end

/-- A registry never confuses identities, whatever is called on it. -/
theorem registry_identities_never_confused {registry : PagedRegistry T} {directory : Bool}
    {capacity : Nat} (hnew : new directory capacity = .ok registry)
    (trace : List (RegistryCall T)) :
    let h := (start registry).calls trace
    h.issued.Nodup ∧ (h.issued.map encode).Nodup ∧ (∀ token ∈ h.released,
        (∀ value, h.registry.lookupRef token ≠ .occupied value) ∧ h.registry.getMut token = none ∧
          ∀ completed, h.registry.release token completed = (none, h.registry)) ∧
      (∀ index ∈ h.exhausted, (h.registry.slotRef index).any Slot.isRetired = true ∧
          index ∉ h.registry.recycled) ∧
      h.registry.live = h.registry.count Slot.isOccupied ∧
      h.registry.live + h.registry.free + h.registry.count Slot.isRetired = h.registry.capacity ∧
      h.registry.recycled.Nodup ∧
      (∀ index, index ∈ h.registry.recycled ↔ index < h.registry.nextUnused ∧
        (h.registry.slotRef index).any Slot.isVacant = true) ∧
      (∀ page make e, (h.registry.allocate page make).1 = .error e →
        (h.registry.allocate page make).2 = h.registry) ∧
      (∀ token completed, (h.registry.release token completed).1 = none →
        (h.registry.release token completed).2 = h.registry) := by
  intro h
  obtain ⟨t, hsound⟩ := (sound_start hnew).calls trace
  refine ⟨hsound.nodup, hsound.encode_nodup, ?_, ?_, hsound.live_eq, hsound.partition, ?_,
    hsound.mem_recycled, ?_, ?_⟩
  · intro token htoken
    obtain ⟨hlookup, hget⟩ := hsound.released_unoccupied htoken
    exact ⟨hlookup, hget, hsound.stale_release htoken⟩
  · intro index hindex
    exact hsound.exhausted_retired hindex
  · rw [hsound.represents.recycled]
    exact hsound.wellFormed.nodup
  · intro page make e hfailed
    exact hsound.failed_allocate hfailed
  · intro token completed hfailed
    exact hsound.failed_release hfailed

/-- A registry of one slot. -/
def oneSlot : PagedRegistry Nat := ⟨1, [none], [], 0, 0⟩

/-- The slot is handed out, refused to a second caller, released twice and handed out again. -/
def reuse : List (RegistryCall Nat) :=
  [.allocate true fun _ => 7, .allocate true fun _ => 8, .release ⟨0, 1⟩ true,
    .release ⟨0, 1⟩ true, .allocate false fun _ => 9]

theorem registry_identities_never_confused_reuse : new true 1 = .ok oneSlot ∧
      ((start oneSlot).calls reuse).issued = [⟨0, 2⟩, ⟨0, 1⟩] ∧
      (((start oneSlot).calls reuse).issued.map encode).Nodup :=
  ⟨rfl, by decide +kernel,
    (registry_identities_never_confused (show new true 1 = .ok oneSlot from rfl)
      reuse).2.1⟩

end History

end RdmaIo.Engine
