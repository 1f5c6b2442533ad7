/-
Runs of a partial step function: a labelled machine takes a label when the
label is enabled, and a run is a list of labels taken one after another.

The rules below turn a fact about one step into a fact about every state that
a run reaches, with or without a condition on the steps the run takes, and a rank
that falls into a run that ends at rest.
-/
import Mathlib.Tactic.Common

namespace Machine

universe u v

variable {S : Type u} {L : Type v}

/-- Take the labels of a trace in order; `none` when one is not enabled. -/
def run (step : S → L → Option S) : S → List L → Option S
  | s, [] => some s
  | s, l :: ls => (step s l).bind fun s' => run step s' ls

/-- Every step that the trace takes from `s` meets `P` in the state before it. -/
def Along (step : S → L → Option S) (P : S → L → Prop) : S → List L → Prop
  | _, [] => True
  | s, l :: ls => P s l ∧ ∀ s', step s l = some s' → Along step P s' ls

variable {step : S → L → Option S} {P : S → L → Prop}

@[simp] theorem run_nil (s : S) : run step s [] = some s := rfl

theorem run_cons {s t : S} {l : L} {ls : List L} : run step s (l :: ls) = some t ↔
      ∃ s', step s l = some s' ∧ run step s' ls = some t := by
  simp only [run, Option.bind_eq_some_iff]

/-- A step behind a guard that was taken. -/
theorem of_guard {p : Prop} [Decidable p] {s t : S} (h : (if p then some s else none) = some t) :
    p ∧ t = s := by
  obtain ⟨hp, heq⟩ := Option.ite_none_right_eq_some.mp h
  exact ⟨hp, (Option.some.inj heq).symm⟩

/-- Decidability of a step condition along a trace, for evaluating runs. -/
def decidableAlong (step : S → L → Option S) (P : S → L → Prop)
    [∀ s l, Decidable (P s l)] : ∀ s ls, Decidable (Along step P s ls)
  | _, [] => isTrue trivial
  | s, l :: ls =>
    match hstep : step s l with
    | none =>
      decidable_of_iff (P s l) ⟨fun h => ⟨h, by simp [hstep]⟩, And.left⟩
    | some s' =>
      have := decidableAlong step P s' ls
      decidable_of_iff (P s l ∧ Along step P s' ls)
        ⟨fun h => ⟨h.1, fun _ hs => by
          rw [hstep, Option.some.injEq] at hs
          exact hs ▸ h.2⟩,
         fun h => ⟨h.1, h.2 s' hstep⟩⟩

instance [∀ s l, Decidable (P s l)] (s : S) (ls : List L) : Decidable (Along step P s ls) :=
  decidableAlong step P s ls

/-- Decidability of what holds at the end of a trace, for evaluating runs. -/
instance decidableEnds (o : Option S) (p : S → Prop) [DecidablePred p] :
    Decidable (∃ s, o = some s ∧ p s) :=
  match o with
  | none => isFalse (by simp)
  | some s => decidable_of_iff (p s) (by simp)

/-- What a trace ends with follows from what holds there. -/
theorem ends_imp {o : Option S} (p : S → Prop) {q : S → Prop} (hends : ∃ s, o = some s ∧ p s)
    (himp : ∀ s, o = some s → p s → q s) : ∃ s, o = some s ∧ q s := by
  obtain ⟨s, ho, hp⟩ := hends
  exact ⟨s, ho, himp s ho hp⟩

/-- A property kept by every step that meets `P` holds after every run whose
steps all meet `P`. -/
theorem run_invariant {Inv : S → Prop}
    (hstep : ∀ s l s', Inv s → P s l → step s l = some s' → Inv s')
    {s t : S} {ls : List L} (hinit : Inv s) (halong : Along step P s ls)
    (hrun : run step s ls = some t) : Inv t := by
  induction ls generalizing s with
  | nil =>
    rw [run_nil, Option.some.injEq] at hrun
    exact hrun ▸ hinit
  | cons l _ ih =>
    obtain ⟨s', hl, hls⟩ := run_cons.mp hrun
    exact ih (hstep s l s' hinit halong.1 hl) (halong.2 s' hl) hls

theorem along_trivial (s : S) (ls : List L) : Along step (fun _ _ => True) s ls := by
  induction ls generalizing s with
  | nil => trivial
  | cons _ _ ih => exact ⟨trivial, fun s' _ => ih s'⟩

/-- A property kept by every step holds after every run. -/
theorem run_invariant_of_step {Inv : S → Prop}
    (hstep : ∀ s l s', Inv s → step s l = some s' → Inv s') {s t : S} {ls : List L} (hinit : Inv s)
    (hrun : run step s ls = some t) : Inv t :=
  run_invariant (P := fun _ _ => True) (fun s l s' hinv _ hl => hstep s l s' hinv hl) hinit
    (along_trivial s ls) hrun

/-- None of the labels that are due changes the state. -/
def AtRest (step : S → L → Option S) (due : List L) (s : S) : Prop :=
  ∀ l ∈ due, (step s l).getD s = s

instance [DecidableEq S] (due : List L) (s : S) : Decidable (AtRest step due s) :=
  inferInstanceAs (Decidable (∀ l ∈ due, _))

variable {due : List L} {rank : S → Nat}

/-- At rest, a due step that would lower a rank is one of those that change nothing. -/
theorem AtRest.idle {s s' : S} {l : L} {idles : Prop} (hrest : AtRest step due s) (hl : l ∈ due)
    (hstep : step s l = some s') (hfalls : rank s' < rank s ∨ idles) : idles := by
  have hsame := hrest l hl
  rw [hstep, Option.getD_some] at hsame
  rw [hsame] at hfalls
  exact hfalls.resolve_left (Nat.lt_irrefl _)

/-- Every due step changes nothing or lowers the rank, and a run of due steps ends at
rest with `goal`. -/
structure Settles (step : S → L → Option S) (due : List L) (rank : S → Nat) (goal : S → Prop)
    (s : S) : Prop where
  falls : ∀ l ∈ due, ∀ s', step s l = some s' → rank s' < rank s ∨ s' = s
  ends : ∃ ls, (∀ l ∈ ls, l ∈ due) ∧ ∃ t, run step s ls = some t ∧ AtRest step due t ∧ goal t

theorem settles {Inv goal : S → Prop}
    (hkeep : ∀ s l s', Inv s → l ∈ due → step s l = some s' → Inv s')
    (hfalls : ∀ s l s', Inv s → l ∈ due → step s l = some s' → rank s' < rank s ∨ s' = s)
    (hgoal : ∀ s, Inv s → AtRest step due s → goal s) {s : S} (hs : Inv s) :
    Settles step due rank goal s := by
  refine ⟨fun l hl s' hstep => hfalls s l s' hs hl hstep, ?_⟩
  -- by induction on the rank: a step that changes something leaves less of it
  induction hr : rank s using Nat.strongRecOn generalizing s with
  | ind _ ih =>
    by_cases hrest : AtRest step due s
    · exact ⟨[], by simp, s, rfl, hrest, hgoal s hs hrest⟩
    simp only [AtRest, not_forall] at hrest
    obtain ⟨l, hl, hmoves⟩ := hrest
    cases hstep : step s l with
    | none => simp [hstep] at hmoves
    | some s' =>
      rw [hstep, Option.getD_some] at hmoves
      have hlt := (hfalls s l s' hs hl hstep).resolve_right hmoves
      obtain ⟨ls, hls, t, hrun, ht⟩ := ih _ (hr ▸ hlt) (hkeep s l s' hs hl hstep) rfl
      exact ⟨l :: ls, by simpa [hl] using hls, t, run_cons.mpr ⟨s', hstep, hrun⟩, ht⟩

end Machine
