/-
Calls that interleave over one shared state.

A call is the list of atomic operations it still has to make.  An operation that
is enabled changes the shared state and puts the operations it leads to in front
of the rest of its call.
-/
import Mathlib.Tactic.Common

namespace Threads

universe u v

variable {S : Type u} {O : Type v} {exec : O → S → Option (S × List O)}

/-- The next operation of one call; `none` if it is blocked or the call is over. -/
def advance (exec : O → S → Option (S × List O)) (s : S) (calls : List (List O))
    (i : Nat) : Option (S × List (List O)) :=
  match calls[i]? with
  | some (op :: rest) =>
    (exec op s).map fun result => (result.1, calls.set i (result.2 ++ rest))
  | some [] | none => none

theorem flatten_set {calls : List (List O)} {i : Nat} {op : O} {rest : List O}
    (h : calls[i]? = some (op :: rest)) : ∃ before after, calls.flatten = before ++ op :: after ∧
      ∀ more, (calls.set i (more ++ rest)).flatten = before ++ (more ++ after) := by
  induction calls generalizing i with
  | nil => simp at h
  | cons call calls ih =>
    cases i with
    | zero =>
      rw [List.getElem?_cons_zero, Option.some.injEq] at h
      subst h
      exact ⟨[], rest ++ calls.flatten, by simp, fun more => by simp⟩
    | succ =>
      rw [List.getElem?_cons_succ] at h
      obtain ⟨before, after, hflat, hset⟩ := ih h
      exact ⟨call ++ before, after, by simp [hflat], fun more => by simp [hset more]⟩

/-- One operation of one call is replaced by those it leads to. -/
theorem advance_eq_some {s s' : S} {calls calls' : List (List O)} {i : Nat}
    (h : advance exec s calls i = some (s', calls')) :
    ∃ op more before after, exec op s = some (s', more) ∧
      calls.flatten = before ++ op :: after ∧
      calls'.flatten = before ++ (more ++ after) := by
  unfold advance at h
  split at h
  next op _ hcall =>
    obtain ⟨⟨t, more⟩, hexec, heq⟩ := Option.map_eq_some_iff.mp h
    obtain ⟨rfl, rfl⟩ := Prod.mk.inj heq
    obtain ⟨before, after, hflat, hset⟩ := flatten_set hcall
    exact ⟨op, more, before, after, hexec, hflat, hset more⟩
  · cases h
  · cases h

/-- The operations run to their end with no other call in between. -/
inductive Finishes (exec : O → S → Option (S × List O)) : S → List O → S → Prop
  | nil (s : S) : Finishes exec s [] s
  | cons {op : O} {rest more : List O} {s s₁ s' : S} (hexec : exec op s = some (s₁, more))
      (hrest : Finishes exec s₁ (more ++ rest) s') : Finishes exec s (op :: rest) s'

variable {s s₁ s' : S} {op : O} {ops more : List O}

theorem Finishes.append (h₁ : Finishes exec s ops s₁) (h₂ : Finishes exec s₁ more s') :
    Finishes exec s (ops ++ more) s' := by
  induction h₁ with
  | nil => exact h₂
  | cons hexec _ ih =>
    have hmore := ih h₂
    rw [List.append_assoc] at hmore
    exact .cons hexec hmore

/-- An operation whose followers run to their end. -/
theorem Finishes.single (hexec : exec op s = some (s₁, more)) (h : Finishes exec s₁ more s') :
    Finishes exec s [op] s' := by
  refine .cons hexec ?_
  rw [List.append_nil]
  exact h

/-- An operation that leads to no other. -/
theorem Finishes.atomic (hexec : exec op s = some (s', [])) : Finishes exec s [op] s' :=
  .single hexec (.nil s')

end Threads
