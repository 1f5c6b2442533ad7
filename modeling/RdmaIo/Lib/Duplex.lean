/-
Pairs indexed by the two ends of a connection.
-/
import Mathlib.Tactic.Common

/-- The two ends of a connection. -/
inductive Side where
  | a
  | b
deriving Repr, DecidableEq

namespace Side

def other : Side → Side
  | a => b
  | b => a

@[simp] theorem other_other (p : Side) : p.other.other = p := by
  cases p <;> rfl

theorem eq_or_eq_other (p q : Side) : q = p ∨ q = p.other := by
  cases p <;> cases q <;> decide

end Side

universe u

/-- One value for each end. -/
structure Duplex (α : Type u) where
  a : α
  b : α
deriving Repr, DecidableEq

namespace Duplex

variable {α : Type u} (d : Duplex α)

def get : Side → α
  | .a => d.a
  | .b => d.b

def set : Side → α → Duplex α
  | .a, x => { d with a := x }
  | .b, x => { d with b := x }

@[simp] theorem get_set_self (p : Side) (x : α) : (d.set p x).get p = x := by
  cases p <;> rfl

@[simp] theorem get_set_other (p : Side) (x : α) : (d.set p x).get p.other = d.get p.other := by
  cases p <;> rfl

@[simp] theorem get_set_of_other (p : Side) (x : α) : (d.set p.other x).get p = d.get p := by
  cases p <;> rfl

/-- A fact about each end, seen as sender and as receiver of the other, holds
for both ends once it holds for one end in both roles. -/
theorem forall_side {P : Side → Prop} (p : Side) (hp : P p) (hq : P p.other) : ∀ q, P q := by
  intro q
  rcases p.eq_or_eq_other q with rfl | rfl
  · exact hp
  · exact hq

end Duplex
