/-
The receive side of both ring transports against the log of everything the
peer has posted: which arrival numbers are still held for the application, and
what the completion tracker knows about them.

Arrival number `i` is the `i`-th Write-with-Imm the peer posted.  The window
stands at the first number not released, `h`, and `n` numbers have arrived.
-/
import RdmaIo.Ring.Common
import Mathlib.Data.List.Perm.Subperm

namespace RdmaIo

open List

/-- A Write-with-Imm in the receive ring: a data message, or the padding that
fills the ring to its end. -/
structure Entry where
  offset : Nat
  len : Nat
  data : Bool
deriving Repr, DecidableEq

/-- Virtual position at which entry `i` of the log begins. -/
def logPos (log : List Entry) (i : Nat) : Nat :=
  RingLog.pos (log.map Entry.len) i

variable {i : Nat} {e : Entry}

@[simp] theorem logPos_zero (log : List Entry) : logPos log 0 = 0 := by
  simp [logPos]

variable {log : List Entry} {h idx o l s m fuel start : Nat} {map : VirtualIdxMap}

theorem logPos_succ (hi : log[i]? = some e) : logPos log (i + 1) = logPos log i + e.len :=
  RingLog.pos_succ (by simp [hi])

theorem logPos_mono (log : List Entry) {j : Nat} (hij : i ≤ j) : logPos log i ≤ logPos log j :=
  RingLog.pos_mono _ hij

theorem logPos_append (more : List Entry) (hi : i ≤ log.length) :
    logPos (log ++ more) i = logPos log i := by
  rw [logPos, map_append]
  exact RingLog.pos_append_of_le _ (by simpa using hi)

theorem logPos_append_singleton (log : List Entry) (e : Entry) :
    logPos (log ++ [e]) (log ++ [e]).length =
      logPos log log.length + e.len := by
  rw [length_append, length_singleton, logPos_succ (e := e) (by simp), logPos_append _ le_rfl]

/-- Every entry stands at its virtual position modulo the ring size, without
crossing the end of the ring; a padding reaches exactly to the end. -/
def Layout (c : Nat) (log : List Entry) : Prop :=
  ∀ (i : Nat) (e : Entry), log[i]? = some e →
    e.offset = logPos log i % c ∧ 0 < e.len ∧ e.offset + e.len ≤ c ∧
      (e.data = false → e.offset + e.len = c) ∧ (e.data = true → e.len < 2 ^ 16)

variable {c : Nat}

theorem Layout.append (hlog : Layout c log) (hoff : e.offset = logPos log log.length % c)
    (hpos : 0 < e.len) (hend : e.offset + e.len ≤ c) (hpad : e.data = false → e.offset + e.len = c)
    (hdata : e.data = true → e.len < 2 ^ 16) : Layout c (log ++ [e]) := by
  intro i f hf
  rcases lt_or_ge i log.length with hlt | hge
  · rw [List.getElem?_append_left hlt] at hf
    rw [logPos_append _ (le_of_lt hlt)]
    exact hlog i f hf
  · have hi : i = log.length := by
      have := (List.getElem?_eq_some_iff.mp hf).1
      rw [length_append, length_singleton] at this
      omega
    subst hi
    simp only [List.getElem?_concat_length, Option.some.injEq] at hf
    subst hf
    rw [logPos_append _ le_rfl]
    exact ⟨hoff, hpos, hend, hpad, hdata⟩

/-- A range of `len` bytes at the end of the log shares no byte with an entry
from number `h` on, if it ends within one ring of where entry `h` begins. -/
theorem Layout.disjoint_tail (hlog : Layout c log) {len : Nat} (hi : log[i]? = some e)
    (hhi : h ≤ i) (hroom : logPos log log.length + len ≤ logPos log h + c) {b : Nat}
    (hnew : logPos log log.length % c ≤ b ∧ b < logPos log log.length % c + len)
    (hold : e.offset ≤ b ∧ b < e.offset + e.len) : False := by
  have hlt := (List.getElem?_eq_some_iff.mp hi).1
  have hend : logPos log i + e.len ≤ logPos log log.length := by
    rw [← logPos_succ hi]
    exact logPos_mono log hlt
  have hfrom := logPos_mono log hhi
  rw [(hlog i e hi).1] at hold
  exact RingLog.mod_ranges_disjoint hend (by omega) hold hnew

/-- The receive completion that the arrival of an entry raises. -/
def Entry.arrival (e : Entry) : WorkCompletion :=
  { wrId := 0, status := 0, vendorErr := 0, opcode := .recvRdmaWithImm,
    withImm := true,
    immData := encodeRingImm e.offset (if e.data then e.len else 0) }

/-- An entry that lies in a ring of `c` bytes. -/
def Entry.Fits (c : Nat) (e : Entry) : Prop :=
  0 < e.len ∧ e.offset + e.len ≤ c ∧ (e.data = false → e.offset + e.len = c) ∧
    (e.data = true → e.len < 2 ^ 16)

theorem Layout.fits (hlog : Layout c log) (he : e ∈ log) : e.Fits c := by
  obtain ⟨i, hi⟩ := mem_iff_getElem?.mp he
  exact (hlog i e hi).2

/-- The receiver reads back the place of an entry from its immediate. -/
theorem Entry.decode_arrival (hc : c ≤ 65536) (he : e.Fits c) :
    decodeRingImm e.arrival.immData = (e.offset, if e.data then e.len else 0) := by
  obtain ⟨_, _, -, hlen⟩ := he
  apply decode_encodeRingImm (by omega)
  split
  · rename_i hdata
    exact hlen hdata
  · norm_num

/-- The message ranges of a queue whose Write completions are those of entries. -/
theorem rangesOf_arrivals (hc : c ≤ 65536) {arrived : List Entry} (hfits : ∀ x ∈ arrived, x.Fits c)
    {wcs : List WorkCompletion} (hwcs : (wcs.filter fun wc => wc.opcode == .recvRdmaWithImm) =
      arrived.map Entry.arrival) {range : Nat × Nat} (hrange : range ∈ rangesOf wcs) :
    ∃ x ∈ arrived, range = (x.offset, x.len) := by
  rw [rangesOf, hwcs] at hrange
  obtain ⟨hmem, hne⟩ := mem_filter.mp hrange
  simp only [mem_map] at hmem
  obtain ⟨_, ⟨x, hx, rfl⟩, rfl⟩ := hmem
  refine ⟨x, hx, ?_⟩
  rw [Entry.decode_arrival hc (hfits x hx)] at hne ⊢
  cases hdata : x.data with
  | true => simp
  | false => simp [hdata] at hne

/-- An entry behind the first `done.length` ones. -/
theorem getElem?_of_later (done : List Entry) {rest : List Entry} {x : Entry} (hx : x ∈ rest) : ∃ i,
    (done ++ rest)[i]? = some x ∧ done.length ≤ i := by
  obtain ⟨j, hj⟩ := mem_iff_getElem?.mp hx
  refine ⟨done.length + j, ?_, Nat.le_add_right _ _⟩
  rw [List.getElem?_append_right (Nat.le_add_right _ _)]
  simpa using hj

/-- Arrival number `i` is held for the application. -/
def holdsSeq (map : VirtualIdxMap) (i : Nat) : Bool :=
  map.any fun e => e.any fun x => x.2.2 == i

theorem holdsSeq_iff : holdsSeq map i = true ↔
      ∃ (idx o l : Nat), map[idx]? = some (some (o, l, i)) := by
  simp only [holdsSeq, any_eq_true]
  constructor
  · rintro ⟨e, hmem, he⟩
    obtain ⟨idx, hidx⟩ := mem_iff_getElem?.mp hmem
    cases e with
    | none => simp at he
    | some x =>
      rw [Option.any_some, beq_iff_eq] at he
      exact ⟨idx, x.1, x.2.1, by rw [hidx, ← he]⟩
  · rintro ⟨_, o, l, hidx⟩
    exact ⟨some (o, l, i), mem_of_getElem? hidx, by simp⟩

/-- Every arrival number is held under one virtual index at most. -/
def SeqInj (map : VirtualIdxMap) : Prop :=
  ∀ (i j : Nat) (x y : Nat × Nat × Nat), map[i]? = some (some x) →
    map[j]? = some (some y) → x.2.2 = y.2.2 → i = j

theorem holdsSeq_set_some (hfree : map[idx]? = some none) (o l s i : Nat) :
    holdsSeq (map.set idx (some (o, l, s))) i = (i == s || holdsSeq map i) := by
  have hlt : idx < map.length := (List.getElem?_eq_some_iff.mp hfree).1
  rw [Bool.eq_iff_iff, Bool.or_eq_true, holdsSeq_iff, holdsSeq_iff, beq_iff_eq]
  constructor
  · rintro ⟨j, o', l', hj⟩
    rw [List.getElem?_set] at hj
    split at hj
    · simp only [Option.some.injEq, Prod.mk.injEq] at hj
      exact .inl hj.2.2.symm
    · exact .inr ⟨j, o', l', hj⟩
  · rintro (rfl | ⟨j, o', l', hj⟩)
    · exact ⟨idx, o, l, by simp [hlt]⟩
    · refine ⟨j, o', l', ?_⟩
      rw [List.getElem?_set_ne, hj]
      rintro rfl
      rw [hfree] at hj
      cases hj

theorem holdsSeq_set_none (hinj : SeqInj map) (hidx : map[idx]? = some (some (o, l, s))) (i : Nat) :
    holdsSeq (map.set idx none) i = (i != s && holdsSeq map i) := by
  have hlt : idx < map.length := (List.getElem?_eq_some_iff.mp hidx).1
  rw [Bool.eq_iff_iff, Bool.and_eq_true, holdsSeq_iff, holdsSeq_iff, bne_iff_ne]
  constructor
  · rintro ⟨j, o', l', hj⟩
    rw [List.getElem?_set] at hj
    split at hj
    · simp at hj
    · rename_i hne
      refine ⟨?_, j, o', l', hj⟩
      rintro rfl
      exact hne (hinj idx j _ _ hidx hj rfl)
  · rintro ⟨hne, j, o', l', hj⟩
    refine ⟨j, o', l', ?_⟩
    rw [List.getElem?_set_ne, hj]
    rintro rfl
    rw [hidx] at hj
    simp only [Option.some.injEq, Prod.mk.injEq] at hj
    exact hne hj.2.2.symm

theorem SeqInj.set_some (hinj : SeqInj map) (hfresh : holdsSeq map s = false) :
    SeqInj (map.set idx (some (o, l, s))) := by
  have hnot : ∀ (k : Nat) (x : Nat × Nat × Nat), map[k]? = some (some x) → x.2.2 ≠ s := by
    intro k x hk heq
    have : holdsSeq map s = true :=
      holdsSeq_iff.mpr ⟨k, x.1, x.2.1, by rw [hk, ← heq]⟩
    rw [hfresh] at this
    cases this
  intro i j x y hi hj heq
  rw [List.getElem?_set] at hi hj
  split at hi <;> split at hj
  · omega
  · split at hi
    · simp only [Option.some.injEq] at hi
      exact absurd (by rw [← heq, ← hi]) (hnot j y hj)
    · cases hi
  · split at hj
    · simp only [Option.some.injEq] at hj
      exact absurd (by rw [heq, ← hj]) (hnot i x hi)
    · cases hj
  · exact hinj i j x y hi hj heq

theorem SeqInj.set_none (hinj : SeqInj map) (idx : Nat) : SeqInj (map.set idx none) := by
  intro i j x y hi hj heq
  rw [List.getElem?_set] at hi hj
  split at hi
  · split at hi <;> simp at hi
  split at hj
  · split at hj <;> simp at hj
  exact hinj i j x y hi hj heq

/-- A free index found by the scan is free, and lies in the map. -/
theorem findVirtIdx_some (hm : map.length = m) (hpos : 0 < m) (hstart : start < m)
    (h : findVirtIdx map m fuel start = some idx) : map[idx]? = some none := by
  induction fuel generalizing start with
  | zero => cases h
  | succ _ ih =>
    simp only [findVirtIdx] at h
    split at h
    · rename_i hnone
      simp only [Option.some.injEq] at h
      subst h
      rw [getD_eq_getElem?_getD, List.getElem?_eq_getElem (by omega)] at hnone
      rw [List.getElem?_eq_getElem (by omega)]
      simpa using hnone
    · exact ih (Nat.mod_lt _ hpos) h

/-- The scan gives up only when every index it passes is taken. -/
theorem findVirtIdx_none (h : findVirtIdx map m fuel start = none) {d : Nat} (hd : d < fuel)
    (hstart : start < m) : map.getD ((start + d) % m) none ≠ none := by
  induction fuel generalizing start d with
  | zero => omega
  | succ _ ih =>
    simp only [findVirtIdx] at h
    split at h
    · cases h
    rename_i htaken
    cases d with
    | zero => rwa [add_zero, Nat.mod_eq_of_lt hstart]
    | succ d =>
      have := ih h (d := d) (by omega) (Nat.mod_lt _ (by omega))
      rwa [Nat.mod_add_mod, show start + 1 + d = start + (d + 1) by omega] at this

/-- Number of messages held. -/
def occupied (map : VirtualIdxMap) : Nat :=
  map.countP Option.isSome

theorem occupied_set_some (hfree : map[idx]? = some none) (held : Nat × Nat × Nat) :
    occupied (map.set idx (some held)) = occupied map + 1 := by
  obtain ⟨hlt, hcell⟩ := List.getElem?_eq_some_iff.mp hfree
  rw [occupied, countP_set hlt, hcell]
  simp [occupied]

theorem occupied_set_none {held : Nat × Nat × Nat} (hheld : map[idx]? = some (some held)) :
    occupied (map.set idx none) + 1 = occupied map := by
  obtain ⟨hlt, hcell⟩ := List.getElem?_eq_some_iff.mp hheld
  have hpos : 0 < occupied map :=
    countP_pos_iff.mpr ⟨some held, mem_of_getElem? hheld, rfl⟩
  rw [occupied, countP_set hlt, hcell]
  simp only [Option.isSome_some, Option.isSome_none, if_true, Bool.false_eq_true, if_false]
  change occupied map - 1 + 0 + 1 = occupied map
  omega

/-- The scan succeeds while fewer messages are held than there are indices. -/
theorem findVirtIdx_isSome_of_occupied_lt (hsize : map.length = m) (hfree : occupied map < m)
    (hstart : start < m) : ∃ idx, findVirtIdx map m m start = some idx := by
  cases hfind : findVirtIdx map m m start with
  | some idx => exact ⟨idx, rfl⟩
  | none =>
    have hall : ∀ cell ∈ map, cell.isSome = true := by
      intro cell hcell
      obtain ⟨idx, hidx, rfl⟩ := getElem_of_mem hcell
      rw [hsize] at hidx
      -- the scan has passed index `idx` after `d` entries
      obtain ⟨d, hd, heq⟩ : ∃ d < m, (start + d) % m = idx := by
        refine ⟨(idx + (m - start)) % m, Nat.mod_lt _ (by omega), ?_⟩
        rw [Nat.add_mod_mod, show start + (idx + (m - start)) = idx + m by omega,
          Nat.add_mod_right, Nat.mod_eq_of_lt hidx]
      have htaken := findVirtIdx_none hfind hd hstart
      rw [heq, getD_eq_getElem?_getD,
        List.getElem?_eq_getElem (by omega), Option.getD_some] at htaken
      exact Option.isSome_iff_ne_none.mpr htaken
    rw [occupied, countP_eq_length.mpr hall, hsize] at hfree
    exact absurd hfree (lt_irrefl m)

theorem SeqInj.nodup (hinj : SeqInj map) :
    (map.filterMap fun cell => cell.map fun x => x.2.2).Nodup := by
  rw [List.Nodup, pairwise_filterMap, pairwise_iff_getElem]
  intro i j hi hj hij s hs s' hs' heq
  obtain ⟨x, hx, rfl⟩ := Option.map_eq_some_iff.mp hs
  obtain ⟨y, hy, rfl⟩ := Option.map_eq_some_iff.mp hs'
  have hsame := hinj i j x y (by rw [List.getElem?_eq_getElem hi, hx])
    (by rw [List.getElem?_eq_getElem hj, hy]) heq
  omega

/-- Messages with different numbers from `h` up to `n` are at most `n - h`. -/
theorem occupied_le {n : Nat} (hinj : SeqInj map)
    (hheld : ∀ (idx o l s : Nat), map[idx]? = some (some (o, l, s)) → h ≤ s ∧ s < n) :
    occupied map ≤ n - h := by
  have hsub : (map.filterMap fun cell => cell.map fun x => x.2.2) ⊆ List.range' h (n - h) := by
    intro s hs
    obtain ⟨_, hcell, hval⟩ := mem_filterMap.mp hs
    obtain ⟨⟨o, l, q⟩, rfl, rfl⟩ := Option.map_eq_some_iff.mp hval
    obtain ⟨idx, hidx⟩ := mem_iff_getElem?.mp hcell
    have := hheld idx o l q hidx
    rw [mem_range'_1]
    simp only
    omega
  have hle := (hinj.nodup.subperm hsub).length_le
  rw [length_range', length_filterMap_eq_countP] at hle
  simpa [occupied] using hle

/-- State of the receive side after `n` arrivals, all numbers before `h`
released. -/
structure RecvWindow (m : Nat) (map : VirtualIdxMap) (t : CompletionTracker)
    (log : List Entry) (h n : Nat) : Prop where
  mapSize : map.length = m
  trackerCapacity : t.capacity = m
  tracked : t.Window h fun i => decide (i < n) && !holdsSeq map i
  held : ∀ (idx o l s : Nat), map[idx]? = some (some (o, l, s)) →
    h ≤ s ∧ s < n ∧ log[s]? = some ⟨o, l, true⟩
  inj : SeqInj map
  le : h ≤ n
  window : n ≤ h + m
  front : h < n → holdsSeq map h = true

namespace RecvWindow

variable {m h n : Nat} {map : VirtualIdxMap} {t : CompletionTracker} {log : List Entry}

theorem new (hm : 0 < m) :
    RecvWindow m (List.replicate m none) (CompletionTracker.new m) [] 0 0 where
  mapSize := by simp
  trackerCapacity := rfl
  tracked := by simpa using CompletionTracker.new_window hm
  held idx o l s hidx := by
    simp [List.getElem?_replicate] at hidx
  inj i j x y hi := by
    simp [List.getElem?_replicate] at hi
  le := le_rfl
  window := Nat.zero_le _
  front hlt := absurd hlt (lt_irrefl 0)

variable (w : RecvWindow m map t log h n)

include w

theorem pos : 0 < m :=
  w.trackerCapacity ▸ w.tracked.capacity_pos

/-- More postings do not disturb what has arrived. -/
theorem append (more : List Entry) : RecvWindow m map t (log ++ more) h n where
  __ := w
  held idx o l s hidx := by
    obtain ⟨hlo, hhi, hlog⟩ := w.held idx o l s hidx
    refine ⟨hlo, hhi, ?_⟩
    rw [List.getElem?_append_left (List.getElem?_eq_some_iff.mp hlog).1, hlog]

/-- A message held for the application is an entry from number `h` on. -/
theorem held_range {range : Nat × Nat} (hrange : range ∈ map.filterMap fun held =>
      held.map fun (offset, length, _) => (offset, length)) :
    ∃ i, log[i]? = some ⟨range.1, range.2, true⟩ ∧ h ≤ i := by
  obtain ⟨_, hcell, hval⟩ := mem_filterMap.mp hrange
  obtain ⟨⟨o, l, q⟩, rfl, rfl⟩ := Option.map_eq_some_iff.mp hval
  obtain ⟨idx, hidx⟩ := mem_iff_getElem?.mp hcell
  obtain ⟨hlo, -, hlog⟩ := w.held idx o l q hidx
  exact ⟨q, hlog, hlo⟩

theorem not_holds_arriving : holdsSeq map n = false := by
  by_contra hheld
  obtain ⟨idx, o, l, hidx⟩ := holdsSeq_iff.mp (by simpa using hheld)
  exact absurd (w.held idx o l n hidx).2.1 (lt_irrefl n)

/-- Room for one more arrival, from room after every number still held. -/
theorem lt_of_held (hroom : ∀ (idx o l s : Nat), map[idx]? = some (some (o, l, s)) → n < s + m) :
    n < h + m := by
  rcases lt_or_ge h n with hlt | hge
  · obtain ⟨idx, o, l, hidx⟩ := holdsSeq_iff.mp (w.front hlt)
    exact hroom idx o l h hidx
  · have := w.pos
    omega

/-- With room in the window the scan for a virtual index succeeds. -/
theorem findVirtIdx_isSome (hroom : n < h + m) {start : Nat} (hstart : start < m) :
    ∃ idx, findVirtIdx map m m start = some idx := by
  have hle := occupied_le w.inj fun idx o l s hidx =>
    ⟨(w.held idx o l s hidx).1, (w.held idx o l s hidx).2.1⟩
  have hpos := w.pos
  exact findVirtIdx_isSome_of_occupied_lt w.mapSize (by omega) hstart

variable {idx o l : Nat}

/-- A data message arrives and is held under a free index. -/
theorem arrive_data (hroom : n < h + m) (hfree : map[idx]? = some none)
    (hlog : log[n]? = some ⟨o, l, true⟩) :
    RecvWindow m (map.set idx (some (o, l, n))) t log h (n + 1) where
  mapSize := by simp [w.mapSize]
  trackerCapacity := w.trackerCapacity
  tracked := by
    have hsame : (fun i => decide (i < n + 1) && !holdsSeq (map.set idx (some (o, l, n))) i) =
        fun i => decide (i < n) && !holdsSeq map i := by
      funext i
      rw [holdsSeq_set_some hfree]
      by_cases hin : i = n
      · simp [hin]
      · have : (i < n + 1) = (i < n) := by
          apply propext; omega
        simp [beq_eq_false_iff_ne.mpr hin, this]
    rw [hsame]
    exact w.tracked
  held j o' l' s hj := by
    rw [List.getElem?_set] at hj
    split at hj
    · split at hj
      · simp only [Option.some.injEq, Prod.mk.injEq] at hj
        obtain ⟨rfl, rfl, rfl⟩ := hj
        exact ⟨w.le, Nat.lt_succ_self _, hlog⟩
      · cases hj
    · obtain ⟨hlo, hhi, hs⟩ := w.held j o' l' s hj
      exact ⟨hlo, Nat.lt_succ_of_lt hhi, hs⟩
  inj := w.inj.set_some w.not_holds_arriving
  le := Nat.le_succ_of_le w.le
  window := hroom
  front hlt := by
    rw [holdsSeq_set_some hfree, Bool.or_eq_true, beq_iff_eq]
    rcases lt_or_ge h n with hlt' | hge
    · exact .inr (w.front hlt')
    · exact .inl (by omega)

/-- Releasing number `i` when it is the only change to what is held. -/
theorem of_release {i n' : Nat} {map' : VirtualIdxMap} (hi : h ≤ i ∧ i < h + m)
    (hsize : map'.length = m) (hinj : SeqInj map') (hle : h ≤ n') (hwindow : n' ≤ h + m)
    (hheld : ∀ (idx o l s : Nat), map'[idx]? = some (some (o, l, s)) →
      h ≤ s ∧ s < n' ∧ log[s]? = some ⟨o, l, true⟩)
    (hreleased : ∀ j, (j == i || (decide (j < n) && !holdsSeq map j)) =
      (decide (j < n') && !holdsSeq map' j)) :
    ∃ k, (t.release (i % m)).2 = k ∧ h + k ≤ n' ∧
      RecvWindow m map' (t.release (i % m)).1 log (h + k) n' := by
  obtain ⟨k, hk, hwin, hcap, hall, hend⟩ :=
    CompletionTracker.release_window w.tracked (by rw [w.trackerCapacity]; exact hi)
  rw [w.trackerCapacity] at hk hwin hcap
  simp only [hreleased] at hwin hall hend
  have hlast : h + k ≤ n' := by
    cases k with
    | zero => exact hle
    | succ k =>
      have := hall k (Nat.lt_succ_self k)
      simp only [Bool.and_eq_true, decide_eq_true_eq] at this
      omega
  refine ⟨k, hk, hlast, hsize, hcap, hwin, ?_, hinj, hlast, by omega, ?_⟩
  · intro idx o l s hidx
    obtain ⟨hlo, hhi, hlog⟩ := hheld idx o l s hidx
    refine ⟨?_, hhi, hlog⟩
    by_contra hpassed
    have hrel := hall (s - h) (by omega)
    rw [Nat.add_sub_cancel' hlo, holdsSeq_iff.mpr ⟨idx, o, l, hidx⟩] at hrel
    simp at hrel
  · intro hlt
    simpa [hlt] using hend

/-- The application releases a held message. -/
theorem release_held {s : Nat} (hidx : map[idx]? = some (some (o, l, s))) :
    ∃ k, (t.release (s % m)).2 = k ∧ h + k ≤ n ∧
      RecvWindow m (map.set idx none) (t.release (s % m)).1 log (h + k) n := by
  obtain ⟨hlo, hhi, _⟩ := w.held idx o l s hidx
  have hw := w.window
  refine w.of_release ⟨hlo, by omega⟩ (by simp [w.mapSize]) (w.inj.set_none idx) w.le hw ?_ ?_
  · intro j o' l' s' hj
    rw [List.getElem?_set] at hj
    split at hj
    · split at hj <;> simp at hj
    · exact w.held j o' l' s' hj
  · intro j
    rw [holdsSeq_set_none w.inj hidx]
    by_cases hjs : j = s
    · simp [hjs, hhi]
    · simp [beq_eq_false_iff_ne.mpr hjs, bne_iff_ne.mpr hjs]

/-- A padding arrives and is released at once. -/
theorem arrive_padding (hroom : n < h + m) : ∃ k, (t.release (n % m)).2 = k ∧ h + k ≤ n + 1 ∧
      RecvWindow m map (t.release (n % m)).1 log (h + k) (n + 1) := by
  refine w.of_release ⟨w.le, hroom⟩ w.mapSize w.inj (Nat.le_succ_of_le w.le) hroom ?_ ?_
  · intro idx o l s hidx
    obtain ⟨hlo, hhi, hlog⟩ := w.held idx o l s hidx
    exact ⟨hlo, Nat.lt_succ_of_lt hhi, hlog⟩
  · intro j
    by_cases hjn : j = n
    · simp [hjn, w.not_holds_arriving]
    · have : (j < n + 1) = (j < n) := by
        apply propext; omega
      simp [beq_eq_false_iff_ne.mpr hjn, this]

end RecvWindow

end RdmaIo
