/-
The deadlines of a reactor.

The queue is a binary heap of entries under their deadline and a sequence number.  After
every sequence of calls it behaves like the list of its entries in the order of their
deadlines, those of one deadline in the order in which they were pushed.
-/
import Mathlib

namespace RdmaIo.Engine

open List

structure DeadlineEntry (P : Type) where
  deadline : Nat
  sequence : Nat
  payload : P
deriving Repr, DecidableEq

structure DeadlineQueue (P : Type) where
  entries : List (DeadlineEntry P) := []
  nextSequence : Nat := 0
deriving Repr, DecidableEq

variable {P : Type} {es ordered : List (DeadlineEntry P)} {e f : DeadlineEntry P}

namespace DeadlineEntry

/-- `cmp` compares the deadlines, then the sequence numbers. -/
def key (e : DeadlineEntry P) : Nat ×ₗ Nat :=
  toLex (e.deadline, e.sequence)

/-- `peek` and `pop` of the binary heap: its least entry, and the others in some order. -/
def takeLeast : List (DeadlineEntry P) → Option (DeadlineEntry P × List (DeadlineEntry P))
  | [] => none
  | e :: es =>
    match takeLeast es with
    | none => some (e, [])
    | some (least, rest) =>
      if e.key ≤ least.key then some (e, es) else some (least, e :: rest)

theorem takeLeast_perm (hne : es ≠ []) :
    ∃ least rest, takeLeast es = some (least, rest) ∧ es.Perm (least :: rest) ∧
      ∀ f ∈ rest, least.key ≤ f.key := by
  induction es with
  | nil => exact absurd rfl hne
  | cons e es ih =>
    by_cases hes : es = []
    · subst hes
      exact ⟨e, [], rfl, .refl _, nofun⟩
    · obtain ⟨least, rest, hleast, hperm, hall⟩ := ih hes
      by_cases hle : e.key ≤ least.key
      · refine ⟨e, es, by simp [takeLeast, hleast, hle], .refl _, fun f hf => ?_⟩
        rcases mem_cons.mp (hperm.mem_iff.mp hf) with rfl | hf
        · exact hle
        · exact hle.trans (hall f hf)
      · exact ⟨least, e :: rest, by simp [takeLeast, hleast, hle],
          (hperm.cons e).trans (.swap _ _ _), forall_mem_cons.mpr ⟨le_of_not_ge hle, hall⟩⟩

/-- The least of entries with different keys is the first of them in order. -/
theorem takeLeast_ordered (hperm : es.Perm (e :: ordered)) (hfirst : ∀ f ∈ ordered, e.key < f.key) :
    ∃ rest, takeLeast es = some (e, rest) ∧ rest.Perm ordered := by
  have hne : es ≠ [] := fun hnil => by simp [hnil] at hperm
  obtain ⟨least, rest, hleast, hrest, hall⟩ := takeLeast_perm hne
  have hsame : (least :: rest).Perm (e :: ordered) := hrest.symm.trans hperm
  obtain rfl : least = e := by
    rcases mem_cons.mp (hsame.mem_iff.mp mem_cons_self) with heq | hmem
    · exact heq
    · rcases mem_cons.mp (hsame.mem_iff.mpr mem_cons_self) with heq | he
      · exact heq.symm
      · exact absurd (hall e he) (not_le_of_gt (hfirst least hmem))
  exact ⟨rest, hleast, hsame.cons_inv⟩

/-- A new entry comes after those of its own deadline. -/
theorem pairwise_orderedInsert (hsorted : ordered.Pairwise (·.key < ·.key))
    (hnew : ∀ f ∈ ordered, f.sequence < e.sequence) :
    (ordered.orderedInsert (·.deadline < ·.deadline) e).Pairwise (·.key < ·.key) := by
  induction ordered with
  | nil => exact pairwise_singleton _ _
  | cons f _ ih =>
    have hcons := pairwise_cons.mp hsorted
    obtain ⟨hf, hnew⟩ := forall_mem_cons.mp hnew
    rw [orderedInsert_cons]
    split
    · next hlt =>
      have hef : e.key < f.key := Prod.Lex.toLex_lt_toLex.mpr (.inl hlt)
      refine pairwise_cons.mpr ⟨forall_mem_cons.mpr ⟨hef, fun g hg => ?_⟩, hsorted⟩
      exact hef.trans (hcons.1 g hg)
    · next hle =>
      refine pairwise_cons.mpr ⟨fun g hg => ?_, ih hcons.2 hnew⟩
      rcases (mem_orderedInsert _).mp hg with rfl | hg
      · have hlast := Nat.lt_or_eq_of_le (Nat.le_of_not_lt hle)
        exact Prod.Lex.toLex_lt_toLex.mpr (hlast.imp_right fun heq => ⟨heq, hf⟩)
      · exact hcons.1 g hg

end DeadlineEntry

inductive DeadlineCall (P : Type) where
  | push (deadline : Nat) (payload : P)
  | popOneDue (now : Nat)
  | drainDue (now limit : Nat)
  | next
deriving Repr, DecidableEq

namespace DeadlineQueue

variable (q : DeadlineQueue P)

/-- A push that finds the sequence numbers exhausted answers `false`. -/
def push (deadline : Nat) (payload : P) : Bool × DeadlineQueue P :=
  if q.nextSequence + 1 < 2 ^ 64 then
    (true, ⟨⟨deadline, q.nextSequence, payload⟩ :: q.entries, q.nextSequence + 1⟩)
  else (false, q)

def popOneDue (now : Nat) : Option P × DeadlineQueue P :=
  match DeadlineEntry.takeLeast q.entries with
  | none => (none, q)
  | some (e, entries) =>
    if now < e.deadline then (none, q) else (some e.payload, { q with entries })

def next : Option Nat :=
  (DeadlineEntry.takeLeast q.entries).map fun (e, _) => e.deadline

def drainDue (q : DeadlineQueue P) (now : Nat) : Nat → List P × DeadlineQueue P
  | 0 => ([], q)
  | limit + 1 =>
    match q.popOneDue now with
    | (none, q) => ([], q)
    | (some payload, q) =>
      let (due, q) := q.drainDue now limit
      (payload :: due, q)

def after : DeadlineCall P → DeadlineQueue P
  | .push deadline payload => (q.push deadline payload).2
  | .popOneDue now => (q.popOneDue now).2
  | .drainDue now limit => (q.drainDue now limit).2
  | .next => q

/-- The entries of the queue, by deadline and then in the order of their pushes. -/
structure Ordered (q : DeadlineQueue P) (ordered : List (DeadlineEntry P)) : Prop where
  entries : q.entries.Perm ordered
  sorted : ordered.Pairwise (·.key < ·.key)
  pushed : ∀ e ∈ ordered, e.sequence < q.nextSequence
  sequence : q.nextSequence < 2 ^ 64

/-- Every call does to the entries of the queue what it would do to their ordered list, and only
the last sequence number is refused. -/
structure Stable (q : DeadlineQueue P) (ordered : List (DeadlineEntry P)) : Prop where
  refuse : ∀ deadline payload, q.nextSequence + 1 = 2 ^ 64 → q.push deadline payload = (false, q)
  push : ∀ deadline payload, q.nextSequence + 1 ≠ 2 ^ 64 →
    (q.push deadline payload).1 = true ∧ (q.push deadline payload).2.Ordered
      (ordered.orderedInsert (·.deadline < ·.deadline) ⟨deadline, q.nextSequence, payload⟩)
  next : q.next = ordered.head?.map (·.deadline)
  drainDue : ∀ now limit, let due := (ordered.takeWhile (·.deadline ≤ now)).take limit
    (q.drainDue now limit).1 = due.map (·.payload) ∧
      (q.drainDue now limit).2.Ordered (ordered.drop due.length)
  popOneDue : ∀ now, ((q.popOneDue now).1.toList, (q.popOneDue now).2) = q.drainDue now 1

namespace Ordered

variable {q : DeadlineQueue P} (h : q.Ordered ordered)

include h

/-- The loop takes the entries that are due from the front of the list. -/
theorem drainDue (now limit : Nat) :
    let due := (ordered.takeWhile (·.deadline ≤ now)).take limit
    (q.drainDue now limit).1 = due.map (·.payload) ∧
      (q.drainDue now limit).2.Ordered (ordered.drop due.length) := by
  induction limit generalizing q ordered with
  | zero => exact ⟨rfl, h⟩
  | succ _ ih =>
    cases ordered with
    | nil =>
      simp only [DeadlineQueue.drainDue, DeadlineQueue.popOneDue, h.entries.eq_nil]
      exact ⟨rfl, h⟩
    | cons e ordered =>
      obtain ⟨hfirst, hsorted⟩ := pairwise_cons.mp h.sorted
      obtain ⟨rest, hleast, hrest⟩ := DeadlineEntry.takeLeast_ordered h.entries hfirst
      by_cases hlate : now < e.deadline
      · simp only [DeadlineQueue.drainDue, DeadlineQueue.popOneDue, hleast, if_pos hlate]
        simpa [hlate] using h
      · have hnext : Ordered { q with entries := rest } ordered :=
          ⟨hrest, hsorted, (forall_mem_cons.mp h.pushed).2, h.sequence⟩
        obtain ⟨hdue, hleft⟩ := ih hnext
        simp only [DeadlineQueue.drainDue, DeadlineQueue.popOneDue, hleast, if_neg hlate, hdue]
        simpa [Nat.le_of_not_lt hlate] using hleft

theorem stable : q.Stable ordered where
  refuse deadline payload hlast := by
    rw [DeadlineQueue.push, if_neg (by omega)]
  push deadline payload hmore := by
    have hsequence := h.sequence
    have hfits : q.nextSequence + 1 < 2 ^ 64 := by omega
    rw [DeadlineQueue.push, if_pos hfits]
    refine ⟨rfl, (h.entries.cons _).trans (perm_orderedInsert _ _ _).symm,
      DeadlineEntry.pairwise_orderedInsert h.sorted h.pushed, fun e he => ?_, hfits⟩
    rcases (mem_orderedInsert _).mp he with rfl | he
    · exact Nat.lt_succ_self _
    · exact (h.pushed e he).trans (Nat.lt_succ_self _)
  next := by
    cases ordered with
    | nil =>
      rw [DeadlineQueue.next, h.entries.eq_nil]
      rfl
    | cons =>
      obtain ⟨_, hleast, -⟩ :=
        DeadlineEntry.takeLeast_ordered h.entries (pairwise_cons.mp h.sorted).1
      rw [DeadlineQueue.next, hleast]
      rfl
  drainDue := h.drainDue
  popOneDue now := by
    rw [DeadlineQueue.drainDue]
    rcases q.popOneDue now with ⟨_ | payload, q⟩ <;> rfl

theorem after (call : DeadlineCall P) : ∃ ordered, (q.after call).Ordered ordered := by
  cases call with
  | push deadline payload =>
    by_cases hlast : q.nextSequence + 1 = 2 ^ 64
    · exact ⟨ordered, by rwa [DeadlineQueue.after, h.stable.refuse deadline payload hlast]⟩
    · exact ⟨_, (h.stable.push deadline payload hlast).2⟩
  | popOneDue now =>
    have hpop := congrArg Prod.snd (h.stable.popOneDue now)
    exact ⟨_, hpop ▸ (h.drainDue now 1).2⟩
  | drainDue now limit => exact ⟨_, (h.drainDue now limit).2⟩
  | next => exact ⟨ordered, h⟩

end Ordered

/-- After every sequence of calls the queue is its ordered list of entries. -/
theorem calls_stable (calls : List (DeadlineCall P)) :
    ∃ ordered, (calls.foldl after ({} : DeadlineQueue P)).Ordered ordered ∧
      (calls.foldl after ({} : DeadlineQueue P)).Stable ordered := by
  have hrun : ∀ q : DeadlineQueue P, (∃ ordered, q.Ordered ordered) →
      ∃ ordered, (calls.foldl after q).Ordered ordered := by
    induction calls with
    | nil => exact fun _ h => h
    | cons call _ ih => exact fun q ⟨_, h⟩ => ih (q.after call) (h.after call)
  obtain ⟨ordered, h⟩ := hrun {} ⟨[], .refl _, .nil, nofun, Nat.two_pow_pos 64⟩
  exact ⟨ordered, h, h.stable⟩

/-- Three pushes, two of them with one deadline: the earliest comes out first, and then the older
of the two. -/
theorem calls_stable_pushes :
    let q := [DeadlineCall.push 5 'a', .push 3 'b', .push 5 'c'].foldl after {}
    ∃ ordered, q.Ordered ordered ∧ (q.drainDue 5 2).1 = ['b', 'a'] ∧
      ((ordered.takeWhile (·.deadline ≤ 5)).take 2).map (·.payload) = ['b', 'a'] ∧
      (q.push 1 'd').2.Ordered (ordered.orderedInsert (·.deadline < ·.deadline) ⟨1, 3, 'd'⟩) := by
  intro q
  obtain ⟨ordered, hordered, hstable⟩ :=
    calls_stable [DeadlineCall.push 5 'a', .push 3 'b', .push 5 'c']
  have hdrain : (q.drainDue 5 2).1 = ['b', 'a'] := by decide
  exact ⟨ordered, hordered, hdrain, (hstable.drainDue 5 2).1.symm.trans hdrain,
    (hstable.push 1 'd' (by decide)).2⟩

end DeadlineQueue

end RdmaIo.Engine
