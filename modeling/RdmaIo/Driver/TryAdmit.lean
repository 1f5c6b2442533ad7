/-
Admission to the cores of the busy pool: `try_admit` and the drop of its guards.

Callers share one cursor, and a call counts itself on a core before it knows whether the core
has room.  Each atomic access is one operation, and those of different calls interleave.  Every
guard holds an `Arc` of the counter of its core, and the process aborts before there are 2^63
of them, so the counters do not wrap; the cursor does.
-/
import Mathlib
import RdmaIo.Driver.BusyPool
import RdmaIo.Lib.Run
import RdmaIo.Lib.Threads

namespace RdmaIo

/-- The admission accounts of the workers.  `live` counts the guards of a core, `fullAt` is the
last moment at which they were as many as its cap, and `early` is set when a call is refused
although some core was full at no moment of it. -/
structure AdmissionPool where
  cores : Nat
  cap : Nat → Nat
  next : Nat := 0
  admitted : Nat → Nat := fun _ => 0
  live : Nat → Nat := fun _ => 0
  clock : Nat := 0
  fullAt : Nat → Nat := fun _ => 0
  early : Bool := false

inductive AdmitPoint where
  | pick
  | take (core : Nat)
  | undo (core : Nat)
deriving DecidableEq

/-- The next access of a `try_admit` that began at the moment `since` and has `left` rounds of
its loop to begin. -/
structure AdmitOp where
  since : Nat
  left : Nat
  point : AdmitPoint := .pick

/-- `try_admit`, one access at a time; with no round left it returns `None`. -/
def AdmitOp.exec (op : AdmitOp) (p : AdmissionPool) : Option (AdmissionPool × List AdmitOp) :=
  match op.point with
  | .pick =>
    match op.left with
    | 0 =>
      some ({ p with early := p.early || (List.range p.cores).any (p.fullAt · ≤ op.since) }, [])
    | left + 1 =>
      some ({ p with next := (p.next + 1) % 2 ^ 64 },
        [{ op with left, point := .take (p.next % p.cores) }])
  | .take i =>
    let admitted := Function.update p.admitted i (p.admitted i + 1)
    if p.admitted i < p.cap i then
      some ({ p with admitted, live := Function.update p.live i (p.live i + 1) }, [])
    else some ({ p with admitted }, [{ op with point := .undo i }])
  | .undo i =>
    some ({ p with admitted := Function.update p.admitted i (p.admitted i - 1) },
      [{ op with point := .pick }])

namespace AdmissionPool

/-- `AdmissionGuard::drop`. -/
def drop (p : AdmissionPool) (i : Nat) : AdmissionPool :=
  { p with
    admitted := Function.update p.admitted i (p.admitted i - 1)
    live := Function.update p.live i (p.live i - 1) }

/-- A moment passes. -/
def tick (p : AdmissionPool) : AdmissionPool :=
  { p with
    clock := p.clock + 1
    fullAt := fun c => if p.live c = p.cap c then p.clock + 1 else p.fullAt c }

end AdmissionPool

structure AdmissionState where
  pool : AdmissionPool
  calls : List (List AdmitOp) := []

inductive AdmissionLabel where
  | tryAdmit
  | advance (call : Nat)
  | drop (core : Nat)

def AdmissionState.step (s : AdmissionState) : AdmissionLabel → Option AdmissionState
  | .tryAdmit => some ⟨s.pool.tick, s.calls ++ [[⟨s.pool.clock, s.pool.cores, .pick⟩]]⟩
  | .advance call =>
    (Threads.advance AdmitOp.exec s.pool s.calls call).map fun r => ⟨r.1.tick, r.2⟩
  | .drop core =>
    if 0 < s.pool.live core then some ⟨(s.pool.drop core).tick, s.calls⟩ else none

variable {p p' : AdmissionPool} {op : AdmitOp} {more before after ops : List AdmitOp}

namespace AdmissionPool

/-- The counter of a core has its guards and the calls that will take their count back. -/
def Counted (p : AdmissionPool) (ops : List AdmitOp) : Prop :=
  ∀ c, p.admitted c = p.live c + ops.countP (·.point = .undo c) ∧ p.live c ≤ p.cap c

theorem Counted.exec (h : p.Counted (before ++ op :: after))
    (hexec : op.exec p = some (p', more)) : p'.Counted (before ++ (more ++ after)) := by
  intro c
  have hc := h c
  unfold AdmitOp.exec at hexec
  simp only [List.countP_append, List.countP_cons] at hc ⊢
  split at hexec
  next hpoint => split at hexec <;> cases hexec <;> simpa [hpoint] using hc
  next hpoint => split at hexec <;> cases hexec <;> grind [Function.update_apply]
  next hpoint =>
    cases hexec
    grind [Function.update_apply]

theorem Counted.drop (h : p.Counted ops) {i : Nat} (hi : 0 < p.live i) :
    (p.drop i).Counted ops := by
  intro c
  have hc := h c
  simp only [AdmissionPool.drop]
  grind [Function.update_apply]

end AdmissionPool

namespace AdmitOp

/-- A call that is alone has picked one core after another from the cursor `start` on, and
has seen them full but for the one it is about to count itself on. -/
structure Scanned (op : AdmitOp) (p : AdmissionPool) (start : Nat) : Prop where
  rounds : op.left ≤ p.cores
  fits : start + p.cores ≤ 2 ^ 64
  since_le : op.since ≤ p.clock
  next : op.left ≠ 0 → p.next = start + (p.cores - op.left)
  seen : ∀ k < p.cores - op.left, op.since < p.fullAt ((start + k) % p.cores) ∨
    op.point = .take ((start + k) % p.cores)

namespace Scanned

variable {start : Nat} (h : op.Scanned p start)

include h

theorem tick {point : AdmitPoint}
    (hpoint : ∀ i, op.point = .take i → point = .take i ∨ p.live i = p.cap i) :
    { op with point }.Scanned p.tick start where
  __ := h
  since_le := Nat.le_succ_of_le h.since_le
  seen k hk := by
    have hsince := h.since_le
    have hseen := h.seen k hk
    have hpoint := hpoint ((start + k) % p.cores)
    simp only [AdmissionPool.tick]
    grind

theorem recount (admitted : Nat → Nat) : op.Scanned { p with admitted } start :=
  { h with }

/-- As many picks in a row as there are cores come to every core. -/
theorem all (hleft : op.left = 0) (hpoint : op.point = .pick) {c : Nat} (hc : c < p.cores) :
    op.since < p.fullAt c := by
  have hpos : 0 < p.cores := Nat.zero_lt_of_lt hc
  have hseen := h.seen ((c + (p.cores - start % p.cores)) % p.cores)
    (by rw [hleft]; exact Nat.mod_lt _ hpos)
  rw [hpoint, Nat.add_mod_mod, ← Nat.mod_add_mod, add_left_comm,
    Nat.add_sub_cancel' (le_of_lt (Nat.mod_lt start hpos)), Nat.add_mod_right,
    Nat.mod_eq_of_lt hc] at hseen
  simpa using hseen

theorem pick {left : Nat} (hleft : op.left = left + 1) (hpoint : op.point = .pick) :
    { op with left, point := .take (p.next % p.cores) }.Scanned
      { p with next := (p.next + 1) % 2 ^ 64 } start := by
  obtain ⟨_, hfits, hsince, hnext, hseen⟩ := h
  refine ⟨?_, hfits, hsince, ?_, fun k hk => ?_⟩ <;> simp only at *
  · omega
  · omega
  · by_cases hlast : k = p.cores - op.left
    · rw [hnext (by omega), ← hlast]
      exact .inr rfl
    · exact .inl (by simpa [hpoint] using hseen k (by omega))

theorem exec (hexec : op.exec p = some (p', more)) (hcounted : p.Counted [op]) :
    p'.early = p.early ∧ ∀ op' ∈ more, more = [op'] ∧ op'.Scanned p'.tick start := by
  unfold AdmitOp.exec at hexec
  split at hexec
  next hpoint =>
    split at hexec <;> cases hexec
    next hleft =>
      have hall : (List.range p.cores).any (p.fullAt · ≤ op.since) = false := by
        simpa using fun c hc => h.all hleft hpoint hc
      simp [hall]
    next hleft => simpa using (h.pick hleft hpoint).tick fun _ => .inl
  next i hpoint =>
    split at hexec <;> cases hexec
    · simp
    next hfull =>
      -- no other call has counted itself here, so the guards alone reach the cap
      obtain ⟨hadmitted, _⟩ := hcounted i
      simp only [List.countP_singleton, hpoint, reduceCtorEq, decide_false,
        Bool.false_eq_true, if_false] at hadmitted
      refine ⟨rfl, List.forall_mem_singleton.mpr ⟨rfl, (h.recount _).tick fun j hj => .inr ?_⟩⟩
      cases hpoint.symm.trans hj
      simp only
      omega
  next hpoint =>
    cases hexec
    exact ⟨rfl, List.forall_mem_singleton.mpr ⟨rfl, (h.recount _).tick (by simp [hpoint])⟩⟩

end Scanned

end AdmitOp

namespace AdmissionState

variable {s s' : AdmissionState} {l : AdmissionLabel}

/-- A call begins when no other is under way, and the cursor does not wrap during it. -/
def Alone (s : AdmissionState) : AdmissionLabel → Prop
  | .tryAdmit => s.calls.flatten = [] ∧ s.pool.next + s.pool.cores ≤ 2 ^ 64
  | .advance _ | .drop _ => True

instance (s : AdmissionState) : DecidablePred s.Alone
  | .tryAdmit => inferInstanceAs (Decidable (_ ∧ _))
  | .advance _ | .drop _ => isTrue trivial

theorem counted_step (h : s.pool.Counted s.calls.flatten) (hstep : s.step l = some s') :
    s'.pool.Counted s'.calls.flatten := by
  cases l with
  | tryAdmit =>
    cases hstep
    intro c
    simpa [AdmissionPool.tick] using h c
  | advance =>
    obtain ⟨⟨p, _⟩, hadvance, rfl⟩ := Option.map_eq_some_iff.mp hstep
    obtain ⟨_, _, _, _, hexec, hops, hops'⟩ := Threads.advance_eq_some hadvance
    rw [hops] at h
    have hcounted := h.exec hexec
    rwa [hops']
  | drop =>
    obtain ⟨hlive, rfl⟩ := Machine.of_guard hstep
    exact h.drop hlive

/-- At most one call is under way, and it has scanned the cores. -/
structure Watched (s : AdmissionState) : Prop where
  counted : s.pool.Counted s.calls.flatten
  early : s.pool.early = false
  solo : ∀ op ∈ s.calls.flatten, s.calls.flatten = [op] ∧ ∃ start, op.Scanned s.pool start

theorem Watched.step (h : s.Watched) (halone : s.Alone l) (hstep : s.step l = some s') :
    s'.Watched := by
  have hcounted := counted_step h.counted hstep
  cases l with
  | tryAdmit =>
    cases hstep
    obtain ⟨hnone, hfits⟩ := halone
    refine ⟨hcounted, h.early, fun op hop => ?_⟩
    rw [List.flatten_append, hnone] at hop ⊢
    cases List.mem_singleton.mp hop
    refine ⟨rfl, s.pool.next, le_refl _, hfits, Nat.le_succ _, ?_, ?_⟩ <;>
      simp [AdmissionPool.tick]
  | advance =>
    obtain ⟨⟨p, _⟩, hadvance, rfl⟩ := Option.map_eq_some_iff.mp hstep
    obtain ⟨op, _, before, after, hexec, hops, hops'⟩ := Threads.advance_eq_some hadvance
    obtain ⟨hone, start, hscanned⟩ := h.solo op (by simp [hops])
    obtain ⟨hearly, hmore⟩ := hscanned.exec hexec (hone ▸ h.counted)
    rw [hops] at hone
    obtain ⟨rfl, rfl⟩ : before = [] ∧ after = [] := by
      simpa [List.append_eq_singleton_iff] using hone
    refine ⟨hcounted, hearly.trans h.early, fun op' hop' => ?_⟩
    simp only [hops', List.nil_append, List.append_nil] at hop' ⊢
    obtain ⟨hone, hscanned⟩ := hmore op' hop'
    exact ⟨hone, start, hscanned⟩
  | drop core =>
    obtain ⟨_, rfl⟩ := Machine.of_guard hstep
    refine ⟨hcounted, h.early, fun op hop => ?_⟩
    obtain ⟨hone, start, hscanned⟩ := h.solo op hop
    exact ⟨hone, start, .tick (p := s.pool.drop core) { hscanned with } fun _ => .inl⟩

/-- No core ever has more guards than its cap.  If calls do not overlap, a call is refused only
when every core has been full during it. -/
theorem admission_refuses_when_full {cores : Nat} {cap : Nat → Nat} {ls : List AdmissionLabel}
    (hrun : Machine.run step ⟨{ cores, cap }, []⟩ ls = some s) :
    (∀ c, s.pool.live c ≤ s.pool.cap c) ∧
      (Machine.Along step Alone ⟨{ cores, cap }, []⟩ ls → s.pool.early = false) := by
  have hcounted : AdmissionPool.Counted { cores, cap } [] := fun c => ⟨rfl, Nat.zero_le _⟩
  refine ⟨fun c => ?_, fun halone => ?_⟩
  · have hlive : s.pool.Counted s.calls.flatten :=
      Machine.run_invariant_of_step (fun _ _ _ h => counted_step h) hcounted hrun
    exact (hlive c).2
  · have hwatched : s.Watched := Machine.run_invariant (fun _ _ _ h => h.step)
      ⟨hcounted, rfl, by simp⟩ halone hrun
    exact hwatched.early

/-- A call on the one core, which is full, is refused. -/
theorem admission_refuses_when_full_one :
    ∃ s, Machine.run step ⟨{ cores := 1, cap := fun _ => 1 }, []⟩
      [.tryAdmit, .advance 0, .advance 0, .tryAdmit, .advance 1, .advance 1, .advance 1,
        .advance 1] = some s ∧ s.calls.flatten.isEmpty ∧
      s.pool.live 0 ≤ s.pool.cap 0 ∧ s.pool.early = false := by
  refine Machine.ends_imp (·.calls.flatten.isEmpty) (by decide +kernel) fun s hrun hover => ?_
  obtain ⟨hcap, hearly⟩ := admission_refuses_when_full hrun
  exact ⟨hover, hcap 0, hearly (by decide +kernel)⟩

/-- Core 0 is full and core 1 is empty.  Between the two rounds of a call another takes the
cursor of core 1, so both rounds come to core 0 and the call is refused. -/
theorem admission_refuses_early : ∃ s, Machine.run step ⟨{ cores := 2, cap := fun _ => 1 }, []⟩
      [.tryAdmit, .advance 0, .advance 0, .tryAdmit, .advance 1, .advance 1, .drop 1,
        .tryAdmit, .advance 2, .advance 2, .advance 2, .tryAdmit, .advance 3,
        .advance 2, .advance 2, .advance 2, .advance 2] = some s ∧ s.pool.early = true := by
  decide +kernel

end AdmissionState

/-! ### The workers of the pool -/

namespace CoreWorker

/-- Worker `c` keeps the account of its core: the calls `ops` that are over its cap, and
guards of tasks that have not created their queue pair. -/
structure Keeps (w : CoreWorker) (p : AdmissionPool) (ops : List AdmitOp) (c : Nat) : Prop where
  cap : w.cap = p.cap c
  admitted : w.admitted = p.admitted c
  overCap : w.overCap = ops.countP (·.point = .undo c)
  starting : w.starting = p.live c

variable {w : CoreWorker} {c : Nat} (deviceLimit : Nat)

/-- Worker `c` takes at most one step, to an account that is kept. -/
def Follows (w : CoreWorker) (p : AdmissionPool) (ops : List AdmitOp) (c : Nat) : Prop :=
  Keeps w p ops c ∨ ∃ l w', w.step deviceLimit l = some w' ∧ Keeps w' p ops c

theorem Follows.tick (h : Follows deviceLimit w p ops c) : Follows deviceLimit w p.tick ops c := by
  obtain h | ⟨l, w', hstep, h⟩ := h
  · exact .inl { h with }
  · exact .inr ⟨l, w', hstep, { h with }⟩

theorem Keeps.exec (h : Keeps w p (before ++ op :: after) c)
    (hexec : op.exec p = some (p', more)) :
    Follows deviceLimit w p' (before ++ (more ++ after)) c := by
  obtain ⟨hcap, hadmitted, hover, hstarting⟩ := h
  unfold AdmitOp.exec at hexec
  simp only [List.countP_append, List.countP_cons] at hover
  split at hexec
  next hpoint =>
    split at hexec <;> cases hexec <;>
      exact .inl ⟨hcap, hadmitted, by simpa [hpoint] using hover, hstarting⟩
  next i hpoint =>
    by_cases hi : i = c
    · subst hi
      split at hexec <;> cases hexec
      next hroom =>
        refine .inr ⟨.fetchAdd, _, if_pos (by omega), hcap, ?_, ?_, ?_⟩ <;> simp_all
      next hroom =>
        refine .inr ⟨.fetchAdd, _, if_neg (by omega), hcap, ?_, ?_, hstarting⟩ <;> simp_all
        omega
    · split at hexec <;> cases hexec <;>
        exact .inl ⟨hcap, by grind, by simpa [hpoint, hi] using hover, by grind⟩
  next i hpoint =>
    cases hexec
    by_cases hi : i = c
    · subst hi
      simp only [hpoint, decide_true, if_true] at hover
      refine .inr ⟨.fetchSub, _, if_pos (by omega), hcap, ?_, ?_, hstarting⟩ <;> simp_all
    · exact .inl ⟨hcap, by grind, by simpa [hpoint, hi] using hover, hstarting⟩

theorem Keeps.drop (h : Keeps w p ops c) {i : Nat} (hi : 0 < p.live i) :
    Follows deviceLimit w (p.drop i) ops c := by
  obtain ⟨hcap, _, hover, _⟩ := h
  by_cases hc : i = c
  · subst hc
    refine .inr ⟨.setupEnds, _, if_pos (by omega), hcap, ?_, hover, ?_⟩ <;>
      simp_all [AdmissionPool.drop]
  · refine .inl ⟨hcap, ?_, hover, ?_⟩ <;>
      simpa [AdmissionPool.drop, Function.update_of_ne (Ne.symm hc)]

theorem Keeps.step {s s' : AdmissionState} {l : AdmissionLabel}
    (h : Keeps w s.pool s.calls.flatten c) (hstep : s.step l = some s') :
    Follows deviceLimit w s'.pool s'.calls.flatten c := by
  cases l with
  | tryAdmit =>
    cases hstep
    exact .inl ⟨h.cap, h.admitted, by simpa using h.overCap, h.starting⟩
  | advance =>
    obtain ⟨⟨p, _⟩, hadvance, rfl⟩ := Option.map_eq_some_iff.mp hstep
    obtain ⟨_, _, _, _, hexec, hops, hops'⟩ := Threads.advance_eq_some hadvance
    rw [hops] at h
    have hfollows := h.exec deviceLimit hexec
    rw [← hops'] at hfollows
    exact hfollows.tick
  | drop =>
    obtain ⟨hlive, rfl⟩ := Machine.of_guard hstep
    exact (h.drop deviceLimit hlive).tick

/-- The calls of `try_admit`, seen from one core, are a run of its worker in the pool. -/
theorem Keeps.run {s s' : AdmissionState} {ls : List AdmissionLabel}
    (h : Keeps w s.pool s.calls.flatten c) (hrun : Machine.run AdmissionState.step s ls = some s') :
    ∃ trace w', Machine.run (CoreWorker.step deviceLimit) w trace = some w' ∧
      Keeps w' s'.pool s'.calls.flatten c := by
  induction ls generalizing s w with
  | nil =>
    cases hrun
    exact ⟨[], w, rfl, h⟩
  | cons _ _ ih =>
    obtain ⟨_, hstep, hrest⟩ := Machine.run_cons.mp hrun
    obtain hkeeps | ⟨l', w₁, hl', hkeeps⟩ := h.step deviceLimit hstep
    · exact ih hkeeps hrest
    · obtain ⟨trace, w', htrace, hw'⟩ := ih hkeeps hrest
      exact ⟨l' :: trace, w', Machine.run_cons.mpr ⟨w₁, hl', htrace⟩, hw'⟩

theorem worker_runs {cores : Nat} {cap : Nat → Nat} {s : AdmissionState} {ls : List AdmissionLabel}
    (hrun : Machine.run AdmissionState.step ⟨{ cores, cap }, []⟩ ls = some s) (c : Nat) :
    ∃ trace w, Machine.run (CoreWorker.step deviceLimit) (.new (cap c)) trace = some w ∧
      Keeps w s.pool s.calls.flatten c :=
  Keeps.run deviceLimit ⟨rfl, rfl, rfl, rfl⟩ hrun

end CoreWorker

end RdmaIo
