import Mathlib.Order.Basic

/-! # Machines driven by events

A machine has an initial state and a partial step function: `step s e = none` means that the event
`e` cannot happen in `s`. A state is reachable under a condition `ok` if a run leads to it all of
whose steps meet `ok`; plain reachability is the case `ok = fun _ _ => True`. The two rules used
later are `ReachableUnder.invariant` (what every step preserves holds in every reachable state) and
`Reachable.map` (a machine each of whose steps is at most one step of another refines it). -/

namespace OmniPaxosBench.Lib

universe u v w x

/-- A deterministic machine; the choice of the event is the only nondeterminism. -/
structure Machine (σ : Type u) (ε : Type v) where
  init : σ
  step : σ → ε → Option σ

namespace Machine

variable {σ : Type u} {ε : Type v} (M : Machine σ ε)

/-- The state after a list of events, if all of them can happen. -/
def run : σ → List ε → Option σ
  | s, [] => some s
  | s, e :: es => (M.step s e).bind fun t => run t es

/-- The states reached by runs whose steps all meet `ok`. -/
inductive ReachableUnder (ok : σ → ε → Prop) : σ → Prop
  | init : ReachableUnder ok M.init
  | step {s t : σ} {e : ε} : ReachableUnder ok s → ok s e → M.step s e = some t →
      ReachableUnder ok t

/-- The states reached by any run. -/
def Reachable (s : σ) : Prop := M.ReachableUnder (fun _ _ => True) s

/-- Every step of the run of `es` from `s` meets `P`. -/
def AllSteps (P : σ → ε → Prop) : σ → List ε → Prop
  | _, [] => True
  | s, e :: es => P s e ∧ ∀ t, M.step s e = some t → AllSteps P t es

/-- `AllSteps` can be evaluated. -/
def decidableAllSteps (P : σ → ε → Prop) [∀ s e, Decidable (P s e)] :
    ∀ s es, Decidable (M.AllSteps P s es)
  | _, [] => isTrue trivial
  | s, e :: es =>
    match h : M.step s e with
    | none => decidable_of_iff (P s e) (by simp [AllSteps, h])
    | some t =>
      have := decidableAllSteps P t es
      decidable_of_iff (P s e ∧ M.AllSteps P t es) (by simp [AllSteps, h])

instance (P : σ → ε → Prop) [∀ s e, Decidable (P s e)] (s : σ) (es : List ε) :
    Decidable (M.AllSteps P s es) := M.decidableAllSteps P s es

/-- Every state of the run of `es` from `s` meets `I`, the first and the last among them. -/
def AllStates (I : σ → Prop) : σ → List ε → Prop
  | s, [] => I s
  | s, e :: es => I s ∧ ∀ t, M.step s e = some t → AllStates I t es

variable {M} {ok ok' : σ → ε → Prop}

theorem ReachableUnder.mono (h : ∀ s e, ok s e → ok' s e) {s : σ} (hs : M.ReachableUnder ok s) :
    M.ReachableUnder ok' s := by
  induction hs with
  | init => exact .init
  | step _ hok hstep ih => exact .step ih (h _ _ hok) hstep

theorem ReachableUnder.reachable {s : σ} (hs : M.ReachableUnder ok s) : M.Reachable s :=
  hs.mono fun _ _ _ => trivial

/-- **The invariant rule**, with reachability of the state before the step at hand. -/
theorem ReachableUnder.invariant {P : σ → Prop} (hinit : P M.init)
    (hstep : ∀ s e t, M.ReachableUnder ok s → ok s e → P s → M.step s e = some t → P t)
    {s : σ} (hs : M.ReachableUnder ok s) : P s := by
  induction hs with
  | init => exact hinit
  | step hr hok h ih => exact hstep _ _ _ hr hok ih h

theorem Reachable.invariant {P : σ → Prop} (hinit : P M.init)
    (hstep : ∀ s e t, M.Reachable s → P s → M.step s e = some t → P t)
    {s : σ} (hs : M.Reachable s) : P s :=
  ReachableUnder.invariant hinit (fun s e t hr _ hp h => hstep s e t hr hp h) hs

theorem Reachable.init : M.Reachable M.init := ReachableUnder.init

theorem Reachable.step {s t : σ} {e : ε} (hs : M.Reachable s) (h : M.step s e = some t) :
    M.Reachable t := ReachableUnder.step hs trivial h

/-- **Refinement**: every step of `M` is, seen through `f`, no step or one step of `N`. -/
theorem Reachable.map {τ : Type w} {δ : Type x} {N : Machine τ δ} {f : σ → τ}
    (hinit : f M.init = N.init)
    (hstep : ∀ s e t, M.step s e = some t → f t = f s ∨ ∃ d, N.step (f s) d = some (f t))
    {s : σ} (hs : M.Reachable s) : N.Reachable (f s) := by
  refine hs.invariant (P := fun s => N.Reachable (f s)) ?_ fun s e t _ ih h => ?_
  · rw [hinit]; exact Reachable.init
  · rcases hstep s e t h with heq | ⟨d, hd⟩
    · rw [heq]; exact ih
    · exact ih.step hd

theorem run_cons (s : σ) (e : ε) (es : List ε) :
    M.run s (e :: es) = (M.step s e).bind fun t => M.run t es := rfl

theorem Reachable.run {s t : σ} (hs : M.Reachable s) {es : List ε} (h : M.run s es = some t) :
    M.Reachable t := by
  induction es generalizing s with
  | nil => cases h; exact hs
  | cons e es ih =>
    rw [run_cons, Option.bind_eq_some_iff] at h
    obtain ⟨s1, h1, h2⟩ := h
    exact ih (hs.step h1) h2

/-- Two conditions on steps that agree in reachable states agree on runs. -/
theorem Reachable.allSteps_congr {P Q : σ → ε → Prop} (h : ∀ s, M.Reachable s → ∀ e, P s e ↔ Q s e)
    {s : σ} (hs : M.Reachable s) (es : List ε) : M.AllSteps P s es ↔ M.AllSteps Q s es := by
  induction es generalizing s with
  | nil => exact Iff.rfl
  | cons e es ih => exact and_congr (h s hs e) (forall₂_congr fun t ht => ih (hs.step ht))

/-- Two conditions on steps that agree in the states with `J` agree on runs, if the steps that meet the
second one keep `J`. -/
theorem allSteps_iff_of_invariant {J : σ → Prop} {P Q : σ → ε → Prop}
    (h : ∀ s e, J s → (P s e ↔ Q s e)) (hJ : ∀ s e t, J s → Q s e → M.step s e = some t → J t)
    {s : σ} (hs : J s) (es : List ε) : M.AllSteps P s es ↔ M.AllSteps Q s es := by
  induction es generalizing s with
  | nil => exact Iff.rfl
  | cons e es ih =>
    constructor
    · rintro ⟨he, hrest⟩
      have hQ : Q s e := (h s e hs).mp he
      exact ⟨hQ, fun t ht => (ih (hJ s e t hs hQ ht)).mp (hrest t ht)⟩
    · rintro ⟨hQ, hrest⟩
      exact ⟨(h s e hs).mpr hQ, fun t ht => (ih (hJ s e t hs hQ ht)).mpr (hrest t ht)⟩

/-- The steps of a run whose first event leads to `t`. -/
theorem allSteps_cons_iff {P : σ → ε → Prop} {s t : σ} {e : ε} {es : List ε} (h : M.step s e = some t) :
    M.AllSteps P s (e :: es) ↔ P s e ∧ M.AllSteps P t es := by
  simp only [AllSteps, h, Option.some.injEq, forall_eq']

/-- The states of a run whose first event leads to `t`. -/
theorem allStates_cons_iff {I : σ → Prop} {s t : σ} {e : ε} {es : List ε} (h : M.step s e = some t) :
    M.AllStates I s (e :: es) ↔ I s ∧ M.AllStates I t es := by
  simp only [AllStates, h, Option.some.injEq, forall_eq']

theorem AllStates.head {I : σ → Prop} {s : σ} {es : List ε} (h : M.AllStates I s es) : I s := by
  cases es with
  | nil => exact h
  | cons e es => exact h.1

/-- Every step of a run starts from one of its states. -/
theorem AllStates.allSteps {I : σ → Prop} {s : σ} {es : List ε} (h : M.AllStates I s es) :
    M.AllSteps (fun s _ => I s) s es := by
  induction es generalizing s with
  | nil => trivial
  | cons e es ih => exact ⟨h.1, fun t ht => ih (h.2 t ht)⟩

/-- **The exact condition for an invariant**: if a step from a state with `I` keeps `I` just when it
meets `P`, then the runs all of whose states have `I` are those all of whose steps meet `P`. -/
theorem ReachableUnder.allStates_iff_allSteps {I : σ → Prop} {P : σ → ε → Prop}
    (h : ∀ s, M.ReachableUnder ok s → I s → ∀ e, ok s e → (P s e ↔ ∀ t, M.step s e = some t → I t))
    {s : σ} (hs : M.ReachableUnder ok s) (hI : I s) {es : List ε} (hok : M.AllSteps ok s es) :
    M.AllStates I s es ↔ M.AllSteps P s es := by
  induction es generalizing s with
  | nil => exact ⟨fun _ => trivial, fun _ => hI⟩
  | cons e es ih =>
    obtain ⟨he, hes⟩ := hok
    constructor
    · rintro ⟨-, hrest⟩
      have hP : P s e := (h s hs hI e he).mpr fun t ht => (hrest t ht).head
      refine ⟨hP, fun t ht => ?_⟩
      exact (ih (hs.step he ht) (hrest t ht).head (hes t ht)).mp (hrest t ht)
    · rintro ⟨hP, hrest⟩
      have hnext := (h s hs hI e he).mp hP
      refine ⟨hI, fun t ht => ?_⟩
      exact (ih (hs.step he ht) (hnext t ht) (hes t ht)).mpr (hrest t ht)

/-- A condition that the events meet in every state. -/
theorem allSteps_of_forall {P : σ → ε → Prop} {es : List ε} (h : ∀ e ∈ es, ∀ s, P s e) (s : σ) :
    M.AllSteps P s es := by
  induction es generalizing s with
  | nil => trivial
  | cons e es ih =>
    exact ⟨h e List.mem_cons_self s, fun t _ => ih (fun e he => h e (List.mem_cons_of_mem _ he)) t⟩

theorem allSteps_true (s : σ) (es : List ε) : M.AllSteps (fun _ _ => True) s es :=
  allSteps_of_forall (fun _ _ _ => trivial) s

theorem Reachable.allStates_iff_allSteps {I : σ → Prop} {P : σ → ε → Prop}
    (h : ∀ s, M.Reachable s → I s → ∀ e, P s e ↔ ∀ t, M.step s e = some t → I t)
    {s : σ} (hs : M.Reachable s) (hI : I s) (es : List ε) :
    M.AllStates I s es ↔ M.AllSteps P s es :=
  ReachableUnder.allStates_iff_allSteps (fun s hr hs e _ => h s hr hs e) hs hI (allSteps_true s es)

/-- **The exact condition for a property that a stronger invariant gives**: the steps that meet `P` keep
`J`, which implies `I`, and a step from a state with `J` to one with `I` meets `P`. -/
theorem allStates_iff_of_run {I J : σ → Prop} {P : σ → ε → Prop} (hJI : ∀ s, J s → I s)
    (hJ : ∀ s e t, J s → P s e → M.step s e = some t → J t)
    (hP : ∀ s e t, J s → M.step s e = some t → I t → P s e) {s t : σ} (hs : J s) {es : List ε}
    (hrun : M.run s es = some t) : M.AllStates I s es ↔ M.AllSteps P s es := by
  induction es generalizing s with
  | nil => exact ⟨fun _ => trivial, fun _ => hJI s hs⟩
  | cons e es ih =>
    rw [run_cons, Option.bind_eq_some_iff] at hrun
    obtain ⟨s1, h1, h2⟩ := hrun
    rw [allStates_cons_iff h1, allSteps_cons_iff h1]
    constructor
    · rintro ⟨-, hrest⟩
      have he : P s e := hP s e s1 hs h1 hrest.head
      exact ⟨he, (ih (hJ s e s1 hs he h1) h2).mp hrest⟩
    · rintro ⟨he, hrest⟩
      exact ⟨hJI s hs, (ih (hJ s e s1 hs he h1) h2).mpr hrest⟩

/-- The last step of a run. -/
theorem AllSteps.of_prefix {P : σ → ε → Prop} {s : σ} {pre es : List ε} (h : M.AllSteps P s es)
    (hpre : pre <+: es) : M.AllSteps P s pre := by
  obtain ⟨rest, rfl⟩ := hpre
  induction pre generalizing s with
  | nil => trivial
  | cons e pre ih => exact ⟨h.1, fun t ht => ih (h.2 t ht)⟩

theorem AllSteps.last {P : σ → ε → Prop} {s t : σ} {es : List ε} {e : ε}
    (h : M.AllSteps P s (es ++ [e])) (hrun : M.run s es = some t) : P t e := by
  induction es generalizing s with
  | nil => cases hrun; exact h.1
  | cons d es ih =>
    rw [run_cons, Option.bind_eq_some_iff] at hrun
    obtain ⟨s1, h1, h2⟩ := hrun
    exact ih (h.2 s1 h1) h2

theorem ReachableUnder.run {s t : σ} (hs : M.ReachableUnder ok s) {es : List ε}
    (hok : M.AllSteps ok s es) (h : M.run s es = some t) : M.ReachableUnder ok t := by
  induction es generalizing s with
  | nil => cases h; exact hs
  | cons e es ih =>
    rw [run_cons, Option.bind_eq_some_iff] at h
    obtain ⟨s1, h1, h2⟩ := h
    exact ih (hs.step hok.1 h1) (hok.2 s1 h1) h2

/-- **The termination rule**: a run whose steps decrease a measure, and keep the invariant `J` that they
need for it, is at most as long as the measure is high. -/
theorem length_le_of_measure {J : σ → Prop} {P : σ → ε → Prop} {measure : σ → ℕ}
    (hstep : ∀ s e t, J s → P s e → M.step s e = some t → J t ∧ measure t < measure s)
    {s t : σ} (hs : J s) {es : List ε} (hes : M.AllSteps P s es) (hrun : M.run s es = some t) :
    J t ∧ es.length + measure t ≤ measure s := by
  induction es generalizing s with
  | nil =>
    cases hrun
    exact ⟨hs, by simp⟩
  | cons e es ih =>
    rw [run_cons, Option.bind_eq_some_iff] at hrun
    obtain ⟨s1, h1, h2⟩ := hrun
    obtain ⟨hJ, hlt⟩ := hstep s e s1 hs hes.1 h1
    obtain ⟨hend, hle⟩ := ih hJ (hes.2 s1 h1) h2
    refine ⟨hend, ?_⟩
    rw [List.length_cons]
    omega

/-- **What an event leaves behind**: if the event `d` makes `P` true and the steps keep it, then `P`
holds at the end of every run that `d` occurs in. -/
theorem ReachableUnder.of_mem_run {P : σ → Prop} {d : ε}
    (hnow : ∀ s t, M.ReachableUnder ok s → ok s d → M.step s d = some t → P t)
    (hkeep : ∀ s e t, M.ReachableUnder ok s → ok s e → P s → M.step s e = some t → P t)
    {s t : σ} (hs : M.ReachableUnder ok s) {es : List ε} (hok : M.AllSteps ok s es)
    (hrun : M.run s es = some t) (hd : d ∈ es) : P t := by
  have hlater : ∀ {s es}, M.ReachableUnder ok s → M.AllSteps ok s es → M.run s es = some t → P s → P t := by
    intro s es hs hok hrun hp
    induction es generalizing s with
    | nil => cases hrun; exact hp
    | cons e es ih =>
      rw [run_cons, Option.bind_eq_some_iff] at hrun
      obtain ⟨s1, h1, h2⟩ := hrun
      exact ih (hs.step hok.1 h1) (hok.2 s1 h1) h2 (hkeep s e s1 hs hok.1 hp h1)
  induction es generalizing s with
  | nil => cases hd
  | cons e es ih =>
    rw [run_cons, Option.bind_eq_some_iff] at hrun
    obtain ⟨s1, h1, h2⟩ := hrun
    have hs1 : M.ReachableUnder ok s1 := hs.step hok.1 h1
    rcases List.mem_cons.mp hd with rfl | hd
    · exact hlater hs1 (hok.2 s1 h1) h2 (hnow s s1 hs hok.1 h1)
    · exact ih hs1 (hok.2 s1 h1) h2 hd

/-- A state a run from the initial state ends in is reachable. -/
theorem reachable_of_run {s : σ} {es : List ε} (h : M.run M.init es = some s) : M.Reachable s :=
  Reachable.init.run h

end Machine

end OmniPaxosBench.Lib
