/-
A log of variable-length entries laid end to end over a ring of `c` bytes.

Entry `i` begins at the virtual position `pos lens i`, the total length of the
entries before it; its ring offset is that position modulo `c`.  Two entries
whose virtual ranges lie in one window of `c` bytes never share a ring byte.
-/
import Mathlib.Tactic.Common
import Mathlib.Tactic.Linarith

namespace RingLog

/-- Virtual position at which entry `i` begins. -/
def pos (lens : List Nat) (i : Nat) : Nat :=
  (lens.take i).sum

@[simp] theorem pos_zero (lens : List Nat) : pos lens 0 = 0 := by
  simp [pos]

variable {lens : List Nat}

theorem pos_succ {i l : Nat} (hi : lens[i]? = some l) : pos lens (i + 1) = pos lens i + l := by
  simp [pos, List.take_add_one, hi]

theorem pos_mono (lens : List Nat) {i j : Nat} (hij : i ≤ j) : pos lens i ≤ pos lens j := by
  obtain ⟨d, rfl⟩ := Nat.exists_eq_add_of_le hij
  simp [pos, List.take_add]

theorem pos_append_of_le (more : List Nat) {i : Nat}
    (hi : i ≤ lens.length) : pos (lens ++ more) i = pos lens i := by
  simp [pos, List.take_append_of_le_length hi]

/-- The window from entry `i` on is at most `bound` bytes per entry. -/
theorem pos_le_add_mul {bound i k : Nat} (hbound : ∀ l ∈ lens, l ≤ bound) :
    pos lens (i + k) ≤ pos lens i + k * bound := by
  induction k with
  | zero => simp
  | succ k =>
    have hstep : pos lens (i + k + 1) ≤ pos lens (i + k) + bound := by
      cases hl : lens[i + k]? with
      | none =>
        rw [List.getElem?_eq_none_iff] at hl
        simp [pos, List.take_of_length_le hl, List.take_of_length_le (Nat.le_succ_of_le hl)]
      | some l =>
        rw [pos_succ hl]
        exact Nat.add_le_add_left (hbound l (List.mem_of_getElem? hl)) _
    rw [Nat.succ_mul, ← Nat.add_assoc]
    omega

/-- One wrap at most when at most one ring length is added. -/
theorem add_mod_of_le {c x d : Nat} (hc : 0 < c) (hd : d ≤ c) :
    (x + d) % c = if x % c + d < c then x % c + d else x % c + d - c := by
  have hx : x % c < c := Nat.mod_lt x hc
  rw [← Nat.mod_add_mod]
  split
  · rename_i hlt
    exact Nat.mod_eq_of_lt hlt
  · rename_i hge
    rw [Nat.mod_eq_sub_mod (Nat.le_of_not_lt hge), Nat.mod_eq_of_lt]
    omega

/-- Distance from `head` forward to `tail` on a ring of `c` bytes. -/
def used (c tail head : Nat) : Nat :=
  if head ≤ tail then tail - head else c - head + tail

/-- The ring distance of two positions less than `c` apart is their distance. -/
theorem used_mod {c head tail : Nat} (hle : head ≤ tail)
    (hlt : tail < head + c) : used c (tail % c) (head % c) = tail - head := by
  have hc : 0 < c := by omega
  obtain ⟨d, rfl⟩ := Nat.exists_eq_add_of_le hle
  have hhead : head % c < c := Nat.mod_lt head hc
  have hmod := add_mod_of_le (x := head) hc (show d ≤ c by omega)
  unfold used
  split at hmod <;> split <;> omega

/-- Ranges that follow one another inside one ring length share no byte. -/
theorem mod_ranges_disjoint {c x lx y ly : Nat} (hxy : x + lx ≤ y) (hwindow : y + ly ≤ x + c)
    {b : Nat} (hx : x % c ≤ b ∧ b < x % c + lx) (hy : y % c ≤ b ∧ b < y % c + ly) : False := by
  have hxdiv := Nat.div_add_mod x c
  have hydiv := Nat.div_add_mod y c
  -- `b` occurs at one virtual position in each range; both are `b` modulo `c`
  -- but they are less than one ring length apart.
  have hlo : c * (x / c) < c * (y / c) := by omega
  have hhi : c * (y / c) < c * (x / c) + c := by omega
  have hquot : x / c < y / c := Nat.lt_of_mul_lt_mul_left hlo
  have hquot' : y / c < x / c + 1 := by
    apply Nat.lt_of_mul_lt_mul_left (a := c)
    rw [Nat.mul_add, mul_one]
    exact hhi
  omega

end RingLog
