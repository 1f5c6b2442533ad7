/-
The send side of both ring transports against the log of everything it has
posted: where `RingBuffer::reserve` puts the next message, and how the log grows
by the padding it may need and by the message itself.
-/
import RdmaIo.Ring.RecvWindow

namespace RdmaIo

open List

/-- Where a message goes that is sent after `padding` bytes. -/
def writeAt (tail padding : Nat) : Nat :=
  if padding > 0 then 0 else tail

/-- The Write that announces `padding` bytes, if there are any. -/
def padWrs (tail padding : Nat) : List SendWr :=
  if padding > 0 then [paddingWr tail] else []

variable (tail len padding : Nat)

/-- The Writes of a send of `len` bytes after `padding` bytes. -/
def sentWrs (bufs : List (List UInt8)) : List SendWr :=
  padWrs tail padding ++ [dataWr (writeAt tail padding) len padding bufs]

theorem sentWrs_filter_isWrite (bufs : List (List UInt8)) :
    (sentWrs tail len padding bufs).filter SendWr.isWrite =
      sentWrs tail len padding bufs := by
  unfold sentWrs padWrs
  split <;> rfl

theorem eq_dataWr_of_mem_sentWrs {tail len padding : Nat} {bufs : List (List UInt8)}
    {wr : SendWr} (hwr : wr ∈ sentWrs tail len padding bufs) (hkind : wr.kind = .data) :
    wr = dataWr (writeAt tail padding) len padding bufs := by
  rcases mem_append.mp hwr with hpad | hdata
  · unfold padWrs at hpad
    split at hpad
    · rw [mem_singleton] at hpad
      subst hpad
      cases hkind
    · simp at hpad
  · exact mem_singleton.mp hdata

/-- The log entry of the padding before a message, if there is one. -/
def padEntries (tail padding : Nat) : List Entry :=
  if padding > 0 then [⟨tail, padding, false⟩] else []

/-- The log entries of a send of `len` bytes after `padding` bytes. -/
def sentEntries : List Entry :=
  padEntries tail padding ++ [⟨writeAt tail padding, len, true⟩]

theorem length_sentEntries :
    (sentEntries tail len padding).length = (padWrs tail padding).length + 1 := by
  unfold sentEntries padEntries padWrs
  split <;> rfl

/-- The log entry of a Write into a ring of `c` bytes. -/
def SendWr.entry (c : Nat) (wr : SendWr) : Entry :=
  if wr.kind = .data then ⟨wr.remoteOffset, wr.payload.length, true⟩
  else ⟨wr.remoteOffset, c - wr.remoteOffset, false⟩

/-- The messages on the wire, in the receive queue or held are entries of the log
from number `h` on. -/
theorem unreleased_entry {c m h n : Nat} (hc : c ≤ 65536) {map : VirtualIdxMap}
    {t : CompletionTracker} {done arrived pending : List Entry} (wire : List SendWr)
    (cq : List WorkCompletion) (hwindow : RecvWindow m map t done h n) (hcount : n = done.length)
    (hfits : ∀ x ∈ arrived, x.Fits c) (hwire : ∀ wr ∈ wire, wr.kind = .data → wr.entry c ∈ pending)
    (hcq : (cq.filter fun wc => wc.opcode == .recvRdmaWithImm) =
      arrived.map Entry.arrival) {range : Nat × Nat}
    (hrange : range ∈ (wire.filter fun wr => wr.kind == .data).map
        (fun wr => (wr.remoteOffset, wr.payload.length)) ++ rangesOf cq ++
      map.filterMap fun held =>
        held.map fun (offset, length, _) => (offset, length)) :
    ∃ i x, (done ++ arrived ++ pending)[i]? = some x ∧ h ≤ i ∧ range = (x.offset, x.len) := by
  have hlater : ∀ x ∈ arrived ++ pending,
      ∃ i, (done ++ arrived ++ pending)[i]? = some x ∧ h ≤ i := by
    intro x hx
    obtain ⟨i, hi, hle⟩ := getElem?_of_later done hx
    exact ⟨i, by rwa [append_assoc], (hcount ▸ hwindow.le).trans hle⟩
  simp only [mem_append] at hrange
  rcases hrange with (hsent | hqueued) | hheld
  · obtain ⟨wr, hwr, rfl⟩ := mem_map.mp hsent
    obtain ⟨hmem, hkind⟩ := mem_filter.mp hwr
    have hdata := eq_of_beq hkind
    obtain ⟨i, hi, hhi⟩ :=
      hlater _ (mem_append_right _ (hwire wr hmem hdata))
    refine ⟨i, _, hi, hhi, ?_⟩
    simp [SendWr.entry, hdata]
  · obtain ⟨x, hx, hrange⟩ := rangesOf_arrivals hc hfits hcq hqueued
    obtain ⟨i, hi, hhi⟩ := hlater x (mem_append_left _ hx)
    exact ⟨i, x, hi, hhi, hrange⟩
  · obtain ⟨i, hi, hhi⟩ := hwindow.held_range hheld
    refine ⟨i, ⟨range.1, range.2, true⟩, ?_, hhi, rfl⟩
    rw [append_assoc, List.getElem?_append_left (List.getElem?_eq_some_iff.mp hi).1, hi]

/-- What a reserve of `len` bytes does to the log of a sender whose local ring
has its tail at `tail`, the end of the log. -/
structure Grows (c : Nat) (log : List Entry) (tail : Nat) (ring : RingBuffer)
    (len padding : Nat) : Prop where
  padded : Layout c (log ++ padEntries tail padding)
  position : logPos (log ++ padEntries tail padding)
    (log ++ padEntries tail padding).length = logPos log log.length + padding
  place : writeAt tail padding = (logPos log log.length + padding) % c
  layout : Layout c (log ++ sentEntries tail len padding)
  len_pos : 0 < len
  inRing : ring.InRing
  ringCapacity : ring.capacity = c
  ringTail : ring.tail = (writeAt tail padding + len) % c
  padding_eq : padding > 0 → padding = c - tail
  padding_lt : padding < len

theorem grows_of_reserve {c : Nat} {log : List Entry} {tail len offset padding : Nat}
    {sendRing ring : RingBuffer} (hlog : Layout c log) (hin : sendRing.InRing)
    (hcap : sendRing.capacity = c) (hsync : sendRing.tail = tail)
    (htail : tail = logPos log log.length % c)
    (hreserve : sendRing.reserve len = some (ring, offset, padding))
    (hlen : len < 2 ^ 16) : Grows c log tail ring len padding := by
  obtain ⟨hpos, hin', hcap', -, hplace⟩ := RingBuffer.reserve_some hin hreserve
  have htaillt : tail < c := by
    rw [← hsync, ← hcap]
    exact hin.tail_lt
  rw [hcap, hsync] at hplace
  rw [hcap] at hcap'
  rcases hplace with ⟨rfl, -, hfit, hnext⟩ | ⟨hpad, hpadding, -, hlt, hlenc, hnext⟩
  · have hentries : padEntries tail 0 = [] := rfl
    have hwrite : writeAt tail 0 = tail := rfl
    have hlay : Layout c (log ++ [⟨tail, len, true⟩]) :=
      hlog.append htail hpos hfit (by simp) (fun _ => hlen)
    exact ⟨by simpa [hentries] using hlog, by simp [hentries], by rw [hwrite, htail, add_zero],
      by simpa [sentEntries, hentries, hwrite] using hlay, hpos, hin', hcap', hnext, by simp, hpos⟩
  · let pad : Entry := ⟨tail, padding, false⟩
    have hentries : padEntries tail padding = [pad] := by
      simp [padEntries, hpad, pad]
    have hwrite : writeAt tail padding = 0 := by
      simp [writeAt, hpad]
    have hpads : Layout c (log ++ [pad]) :=
      hlog.append htail hpad (by simp only [pad]; omega) (by simp only [pad]; omega) (by simp [pad])
    have hend : logPos (log ++ [pad]) (log ++ [pad]).length = logPos log log.length + padding :=
      logPos_append_singleton log pad
    have hzero : (logPos log log.length + padding) % c = 0 := by
      have hdiv := Nat.div_add_mod (logPos log log.length) c
      rw [← htail] at hdiv
      rw [show logPos log log.length + padding =
          c * (logPos log log.length / c + 1) by rw [Nat.mul_succ]; omega]
      exact Nat.mul_mod_right _ _
    refine ⟨by rwa [hentries], by rwa [hentries], by rw [hwrite, hzero], ?_, hpos,
      hin', hcap', ?_, fun _ => hpadding, hlt⟩
    · rw [sentEntries, hentries, hwrite, ← append_assoc]
      exact hpads.append (by rw [hend, hzero]) hpos (by simp only; omega) (by simp) (fun _ => hlen)
    · rw [hnext, hwrite, zero_add, Nat.mod_eq_of_lt hlenc]

namespace Grows

variable {c tail len padding : Nat} {log : List Entry} {ring : RingBuffer}

variable (hg : Grows c log tail ring len padding)

include hg

/-- The log ends after the padding and the message. -/
theorem end_eq : logPos (log ++ sentEntries tail len padding)
      (log ++ sentEntries tail len padding).length =
      logPos log log.length + padding + len := by
  rw [sentEntries, ← append_assoc, logPos_append_singleton, hg.position]

/-- The next message goes where the log ends. -/
theorem next_tail : (writeAt tail padding + len) % c =
      (logPos log log.length + padding + len) % c := by
  rw [hg.place, Nat.mod_add_mod]

/-- The Writes of the send, as log entries. -/
theorem map_entry {bufs : List (List UInt8)} (hpayload : (gatherInto len bufs).length = len) :
    (sentWrs tail len padding bufs).map
        (SendWr.entry c) = sentEntries tail len padding := by
  rw [sentWrs, map_append, sentEntries]
  congr 1
  · unfold padWrs padEntries
    split
    · rename_i hpos
      simp [SendWr.entry, paddingWr, hg.padding_eq hpos]
    · rfl
  · simp [SendWr.entry, dataWr, hpayload]

/-- No entry of the send is longer than the message. -/
theorem entry_len_le {e : Entry} (he : e ∈ sentEntries tail len padding) : e.len ≤ len := by
  rcases mem_append.mp he with hpad | hdata
  · unfold padEntries at hpad
    split at hpad
    · rw [mem_singleton] at hpad
      rw [hpad]
      exact hg.padding_lt.le
    · simp at hpad
  · rw [mem_singleton] at hdata
    rw [hdata]

/-- The Write shares no byte with an entry from number `h` on, if it ends within
one ring of where entry `h` begins. -/
theorem disjoint {h i : Nat} {e : Entry} (hi : log[i]? = some e) (hhi : h ≤ i)
    (hroom : logPos log log.length + padding + len ≤ logPos log h + c) {b : Nat}
    (hnew : writeAt tail padding ≤ b ∧ b < writeAt tail padding + len)
    (hold : e.offset ≤ b ∧ b < e.offset + e.len) : False := by
  have hlt := (List.getElem?_eq_some_iff.mp hi).1
  rw [hg.place, ← hg.position] at hnew
  refine hg.padded.disjoint_tail (h := h) (i := i) (e := e) ?_ hhi ?_ hnew hold
  · rw [List.getElem?_append_left hlt, hi]
  · rw [hg.position, logPos_append _ (by omega)]
    exact hroom

end Grows

/-- Every Write of a send carries the immediate of its log entry. -/
theorem arrival_eq_of_mem {c tail len padding : Nat} {bufs : List (List UInt8)}
    (hpayload : (gatherInto len bufs).length = len) {wr : SendWr}
    (hwr : wr ∈ sentWrs tail len padding bufs) : wr.arrival = (wr.entry c).arrival := by
  rcases mem_append.mp hwr with hpad | hdata
  · unfold padWrs at hpad
    split at hpad
    · rw [mem_singleton] at hpad
      subst hpad
      rfl
    · simp at hpad
  · rw [mem_singleton] at hdata
    subst hdata
    simp [SendWr.arrival, SendWr.entry, Entry.arrival, dataWr, hpayload]

end RdmaIo
