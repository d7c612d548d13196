import OmniPaxosBench.Lib.Machine

/-! # Convergence in laps

A lap is a run in which everyone acts at least once. A stair is a fact about each of them that holds
once it has acted, and from then on. Where every stair rests on the ones below it, a run climbs one
stair in each lap, however the steps of a lap are ordered (`Stairs.reach`), and stays at the top
(`Stairs.kept`). -/

namespace OmniPaxosBench.Lib.Machine

universe u v w

variable {σ : Type u} {ε : Type v} {ι : Type w} {M : Machine σ ε} {ok : σ → ε → Prop}
  {nodes : List ι} {acts : ι → ε → Prop} {I J : σ → Prop} {P : ι → σ → Prop} {s t : σ}

/-! ### Runs in two parts -/

theorem run_append (s : σ) (es fs : List ε) :
    M.run s (es ++ fs) = (M.run s es).bind fun t => M.run t fs := by
  induction es generalizing s with
  | nil => rfl
  | cons e es ih =>
    rw [List.cons_append, run_cons, run_cons, Option.bind_assoc]
    exact congrArg _ (funext ih)

theorem Reachable.exists_run (h : M.Reachable s) : ∃ es, M.run M.init es = some s := by
  refine h.invariant (P := fun s => ∃ es, M.run M.init es = some s) ⟨[], rfl⟩ fun s e t _ hs hstep => ?_
  obtain ⟨es, hrun⟩ := hs
  refine ⟨es ++ [e], ?_⟩
  rw [run_append, hrun, Option.bind_some, run_cons, hstep]
  rfl

theorem AllSteps.append_left {es fs : List ε} (h : M.AllSteps ok s (es ++ fs)) : M.AllSteps ok s es := by
  induction es generalizing s with
  | nil => trivial
  | cons e es ih => exact ⟨h.1, fun t ht => ih (h.2 t ht)⟩

theorem AllSteps.append_right {es fs : List ε} (h : M.AllSteps ok s (es ++ fs))
    (hrun : M.run s es = some t) : M.AllSteps ok t fs := by
  induction es generalizing s with
  | nil => cases hrun; exact h
  | cons e es ih =>
    rw [run_cons, Option.bind_eq_some_iff] at hrun
    obtain ⟨s1, h1, h2⟩ := hrun
    exact ih (h.2 s1 h1) h2

/-- A condition on the events of a run, beside one on its steps. -/
theorem AllSteps.and_forall {P : ε → Prop} {es : List ε} (h : M.AllSteps ok s es) (hP : ∀ e ∈ es, P e) :
    M.AllSteps (fun s e => ok s e ∧ P e) s es := by
  induction es generalizing s with
  | nil => trivial
  | cons e es ih =>
    exact ⟨⟨h.1, hP e List.mem_cons_self⟩,
      fun t ht => ih (h.2 t ht) fun d hd => hP d (List.mem_cons_of_mem _ hd)⟩

/-! ### Facts that stay -/

variable (M ok) in
/-- The steps that meet `ok` keep `I`. -/
def Kept (I : σ → Prop) : Prop := ∀ s e t, I s → ok s e → M.step s e = some t → I t

theorem Kept.run (h : M.Kept ok I) (hs : I s) {es : List ε} (hok : M.AllSteps ok s es)
    (hrun : M.run s es = some t) : I t := by
  induction es generalizing s with
  | nil => cases hrun; exact hs
  | cons e es ih =>
    rw [run_cons, Option.bind_eq_some_iff] at hrun
    obtain ⟨s1, h1, h2⟩ := hrun
    exact ih (h s e s1 hs hok.1 h1) (hok.2 s1 h1) h2

/-- A run during which `I` is kept, and with it what the steps from states with `I` do not change. -/
theorem Kept.eq_of_run {α : Type*} {f : σ → α} (h : M.Kept ok I)
    (hf : ∀ s e t, I s → ok s e → M.step s e = some t → f t = f s) (hs : I s) {es : List ε}
    (hok : M.AllSteps ok s es) (hrun : M.run s es = some t) : f t = f s := by
  have hboth : M.Kept ok fun x => I x ∧ f x = f s := fun a e b ha he hab =>
    ⟨h a e b ha.1 he hab, (hf a e b ha.1 he hab).trans ha.2⟩
  exact (hboth.run ⟨hs, rfl⟩ hok hrun).2

/-! ### Stairs -/

/-- Each of `nodes` acts. -/
def Lap (nodes : List ι) (acts : ι → ε → Prop) (es : List ε) : Prop := ∀ i ∈ nodes, ∃ e ∈ es, acts i e

/-- `I`, and `P` for each of `nodes`. -/
def Above (nodes : List ι) (I : σ → Prop) (P : ι → σ → Prop) (s : σ) : Prop := I s ∧ ∀ i ∈ nodes, P i s

variable (M ok nodes acts) in
/-- In the states with `I`: who acts has `P`, and nobody loses it. -/
structure Stair (I : σ → Prop) (P : ι → σ → Prop) : Prop where
  climb : ∀ s e t, I s → ok s e → M.step s e = some t → ∀ i ∈ nodes, acts i e → P i t
  stay : ∀ s e t, I s → ok s e → M.step s e = some t → ∀ i ∈ nodes, P i s → P i t

theorem Stair.kept (h : M.Stair ok nodes acts I P) (hI : M.Kept ok I) : M.Kept ok (Above nodes I P) :=
  fun s e t hs he hst => ⟨hI s e t hs.1 he hst, fun i hi => h.stay s e t hs.1 he hst i hi (hs.2 i hi)⟩

/-- A stair to climb only as long as `E` does not hold, which nothing undoes. -/
theorem Stair.unless {E : σ → Prop} (hE : M.Kept ok E)
    (climb : ∀ s e t, I s → ok s e → M.step s e = some t → ¬ E t → ∀ i ∈ nodes, acts i e → P i t)
    (stay : ∀ s e t, I s → ok s e → M.step s e = some t → ¬ E t → ∀ i ∈ nodes, P i s → P i t) :
    M.Stair ok nodes acts I fun i s => E s ∨ P i s := by
  refine ⟨fun s e t hs he hst i hi hact => ?_, fun s e t hs he hst i hi hp => ?_⟩
  · by_cases ht : E t
    · exact Or.inl ht
    · exact Or.inr (climb s e t hs he hst ht i hi hact)
  · by_cases ht : E t
    · exact Or.inl ht
    · refine Or.inr (stay s e t hs he hst ht i hi (hp.resolve_left fun h => ht ?_))
      exact hE s e t h he hst

/-- Who has acted during a run has `P` at its end. -/
theorem Stair.run (h : M.Stair ok nodes acts I P) (hI : M.Kept ok I) (hs : I s) {es : List ε}
    (hok : M.AllSteps ok s es) (hrun : M.run s es = some t) {i : ι} (hi : i ∈ nodes)
    (hacts : P i s ∨ ∃ e ∈ es, acts i e) : P i t := by
  induction es generalizing s with
  | nil =>
    cases hrun
    rcases hacts with hp | ⟨e, he, -⟩
    · exact hp
    · cases he
  | cons e es ih =>
    rw [run_cons, Option.bind_eq_some_iff] at hrun
    obtain ⟨s1, h1, h2⟩ := hrun
    refine ih (hI s e s1 hs hok.1 h1) (hok.2 s1 h1) h2 ?_
    rcases hacts with hp | ⟨d, hd, hact⟩
    · exact Or.inl (h.stay s e s1 hs hok.1 h1 i hi hp)
    · rcases List.mem_cons.mp hd with rfl | hd
      · exact Or.inl (h.climb s d s1 hs hok.1 h1 i hi hact)
      · exact Or.inr ⟨d, hd, hact⟩

/-- **One lap, one stair.** -/
theorem Stair.lap (h : M.Stair ok nodes acts I P) (hI : M.Kept ok I) (hs : I s) {es : List ε}
    (hok : M.AllSteps ok s es) (hrun : M.run s es = some t) (hlap : Lap nodes acts es) :
    Above nodes I P t :=
  ⟨hI.run hs hok hrun, fun i hi => h.run hI hs hok hrun hi (Or.inr (hlap i hi))⟩

variable (M ok nodes acts) in
/-- `n` stairs that lead from `I` to `J`. -/
inductive Stairs : ℕ → (σ → Prop) → (σ → Prop) → Prop
  | nil (I : σ → Prop) : Stairs 0 I I
  | cons {n : ℕ} {I J : σ → Prop} {P : ι → σ → Prop} : M.Stair ok nodes acts I P →
      Stairs n (Above nodes I P) J → Stairs (n + 1) I J

theorem Stairs.kept {n : ℕ} (h : M.Stairs ok nodes acts n I J) (hI : M.Kept ok I) : M.Kept ok J := by
  induction h with
  | nil => exact hI
  | cons hstair _ ih => exact ih (hstair.kept hI)

/-- **As many laps as stairs lead to the top.** -/
theorem Stairs.reach {n : ℕ} (h : M.Stairs ok nodes acts n I J) (hI : M.Kept ok I) (hs : I s)
    {laps : List (List ε)} (hlen : laps.length = n) (hlap : ∀ lap ∈ laps, Lap nodes acts lap)
    (hok : M.AllSteps ok s laps.flatten) (hrun : M.run s laps.flatten = some t) : J t := by
  induction h generalizing s laps with
  | nil =>
    obtain rfl := List.length_eq_zero_iff.mp hlen
    cases hrun
    exact hs
  | cons hstair _ ih =>
    obtain ⟨lap, laps, rfl⟩ := List.exists_cons_of_length_eq_add_one hlen
    rw [List.flatten_cons] at hok hrun
    rw [run_append, Option.bind_eq_some_iff] at hrun
    obtain ⟨s1, h1, h2⟩ := hrun
    have hnext := hstair.lap hI hs hok.append_left h1 (hlap lap List.mem_cons_self)
    exact ih (hstair.kept hI) hnext (Nat.succ.inj hlen)
      (fun l hl => hlap l (List.mem_cons_of_mem _ hl)) (hok.append_right h1) h2

end OmniPaxosBench.Lib.Machine
