import Mathlib.Data.List.Basic
import Mathlib.Data.List.Range

/-! # The benchmark runner: iterations of a test

A test is repeated until there are enough results and their relative standard error meets the target.
The repetition is written twice: as two loops in `run`, for local tests, and as the decision at the end
of each iteration of a distributed one, in `DistributedIteration::cleanup`. `Series` says when the
repetition ends; both end there, with the same calls (`run_series`, `DistributedIteration.Going`).

The results are measured times, of a type `τ`; `exceeds` says whether their relative standard error is
above the target. It is a parameter, as it is computed with floating-point numbers. -/

namespace OmniPaxosBench.Suite

inductive NotImplementedError
  | futureWork
  | notImplementable
  | notFound
  deriving DecidableEq, Repr

inductive BenchmarkError
  | rseTargetNotMet (nRuns : ℕ)
  | panic
  | invalidMessage (message : String)
  | rpcError
  | invalidTest (message : String)
  | notImplemented (e : NotImplementedError)
  | invalidDeployment (message : String)
  deriving DecidableEq, Repr

/-- The calls a local test gets, or the master of a distributed one. The data of the clients is handed
to the latter. -/
inductive BenchCall (τ : Type)
  | setup
  | prepareIteration (data : List String)
  | runIteration
  | cleanupIteration (last : Bool) (execTimeMillis : τ)
  deriving DecidableEq, Repr

def minRuns : ℕ := 10

def maxRuns : ℕ := 10

variable {τ : Type} (exceeds : List τ → Bool) (time : ℕ → τ)

/-! ### Local tests -/

/-- The variables of `run`, and the calls it has made. -/
structure LocalRun (τ : Type) where
  nRuns : ℕ
  results : List τ
  calls : List (BenchCall τ)

namespace LocalRun

variable (r : LocalRun τ)

/-- `prepare_iteration`, and `run_iteration` measured. -/
def iteration : LocalRun τ :=
  { nRuns := r.nRuns + 1
    results := r.results ++ [time r.nRuns]
    calls := r.calls ++ [.prepareIteration [], .runIteration] }

/-- `cleanup_iteration` with the last result. -/
def cleanup (last : Bool) : LocalRun τ :=
  { r with calls := r.calls ++ (r.results.getLast?.map (.cleanupIteration last)).toList }

end LocalRun

/-- `while n_runs < MIN_RUNS`. -/
def minLoop : ℕ → LocalRun τ → LocalRun τ
  | 0, r => r
  | fuel + 1, r => if r.nRuns < minRuns then minLoop fuel ((r.cleanup false).iteration time) else r

/-- `while (n_runs < MAX_RUNS) && (rse(&results) > RSE_TARGET)`. -/
def rseLoop : ℕ → LocalRun τ → LocalRun τ
  | 0, r => r
  | fuel + 1, r =>
    if r.nRuns < maxRuns ∧ exceeds r.results then rseLoop fuel ((r.cleanup false).iteration time) else r

/-- `run`; the time of the `k`-th run is `time k`. -/
def run : LocalRun τ × Except BenchmarkError (List τ) :=
  let r : LocalRun τ := ⟨0, [], [.setup]⟩
  let r := r.iteration time
  let r := minLoop time minRuns r
  let r := rseLoop exceeds time maxRuns r
  let r := r.cleanup true
  if exceeds r.results then (r, .error (.rseTargetNotMet r.nRuns)) else (r, .ok r.results)

/-! ### Distributed tests -/

/-- The iterations of a distributed test; of the master, the calls it has got. -/
structure DistributedIteration (τ : Type) where
  master : List (BenchCall τ)
  clientData : List (ℕ × String)
  nRuns : ℕ
  results : List τ
  deriving DecidableEq

namespace DistributedIteration

variable (it : DistributedIteration τ)

def new (master : List (BenchCall τ)) (clientData : List (ℕ × String)) : DistributedIteration τ :=
  ⟨master, clientData, 0, []⟩

def data : List String := it.clientData.map Prod.snd

def prepare : DistributedIteration τ := { it with master := it.master ++ [.prepareIteration it.data] }

/-- The run takes the time `t`. -/
def run (t : τ) : DistributedIteration τ :=
  { it with
    master := it.master ++ [.runIteration]
    results := it.results ++ [t]
    nRuns := it.nRuns + 1 }

def isFinal : Bool := !(it.nRuns < minRuns || (it.nRuns < maxRuns && exceeds it.results))

/-- `cleanup`, without the calls to the clients. -/
def cleanup : DistributedIteration τ :=
  { it with
    master := it.master ++ (it.results.getLast?.map (.cleanupIteration (it.isFinal exceeds))).toList }

end DistributedIteration

/-! ### Series -/

/-- Another run is to follow. -/
def again (rs : List τ) : Bool := rs.length < minRuns || (rs.length < maxRuns && exceeds rs)

/-- Another run was to follow after each of these but the last. -/
structure Open (rs : List τ) : Prop where
  ne : rs ≠ []
  go : ∀ k, 0 < k → k < rs.length → again exceeds (rs.take k) = true

/-- The results of a whole series. -/
structure Series (rs : List τ) : Prop extends Open exceeds rs where
  stop : again exceeds rs = false

/-- The calls of the iterations whose results are `rs`, none of them the last. -/
def iterationCalls (data : List String) (rs : List τ) : List (BenchCall τ) :=
  rs.flatMap fun t => [.prepareIteration data, .runIteration, .cleanupIteration false t]

/-- The calls of a series. -/
def seriesCalls (data : List String) (rs : List τ) : List (BenchCall τ) :=
  iterationCalls data rs.dropLast ++
    rs.getLast?.toList.flatMap fun t => [.prepareIteration data, .runIteration, .cleanupIteration true t]

variable {exceeds time} {rs : List τ}

theorem again_eq_true : again exceeds rs = true ↔
    rs.length < minRuns ∨ (rs.length < maxRuns ∧ exceeds rs = true) := by
  simp [again]

theorem again_eq_false : again exceeds rs = false ↔
    minRuns ≤ rs.length ∧ (maxRuns ≤ rs.length ∨ exceeds rs = false) := by
  rw [← Bool.not_eq_true, again_eq_true, not_or, not_lt, not_and, Bool.not_eq_true]
  refine and_congr_right fun _ => ⟨fun h => ?_, fun h hlt => h.resolve_left (not_le.mpr hlt)⟩
  rcases Nat.lt_or_ge rs.length maxRuns with hlt | hge
  · exact Or.inr (h hlt)
  · exact Or.inl hge

theorem Open.append (h : Open exceeds rs) (hgo : again exceeds rs = true) (t : τ) :
    Open exceeds (rs ++ [t]) := by
  refine ⟨List.append_ne_nil_of_right_ne_nil _ (List.cons_ne_nil _ _), fun k h0 hk => ?_⟩
  rw [List.length_append, List.length_singleton, Nat.lt_succ_iff] at hk
  rw [List.take_append_of_le_length hk]
  rcases Nat.lt_or_eq_of_le hk with hlt | rfl
  · exact h.go k h0 hlt
  · rwa [List.take_length]

theorem seriesCalls_eq (data : List String) {t : τ} (ht : rs.getLast? = some t) : seriesCalls data rs =
    iterationCalls data rs.dropLast ++ [.prepareIteration data, .runIteration, .cleanupIteration true t] := by
  rw [seriesCalls, ht]
  rfl

/-- Two series with the same times are the same. -/
theorem Series.unique {rs' : List τ} (h : Series exceeds rs) (h' : Series exceeds rs')
    (hcomparable : rs <+: rs' ∨ rs' <+: rs) : rs = rs' := by
  have hshort : ∀ {as bs : List τ}, Series exceeds as → Series exceeds bs → as <+: bs → as = bs := by
    intro as bs ha hb hab
    by_contra hne
    have hlt : as.length < bs.length := by
      refine lt_of_le_of_ne hab.length_le fun heq => hne ?_
      exact hab.eq_of_length heq
    have hgo := hb.go as.length (List.length_pos_of_ne_nil ha.ne) hlt
    rw [← List.prefix_iff_eq_take.mp hab, ha.stop] at hgo
    cases hgo
  rcases hcomparable with hab | hba
  · exact hshort h h' hab
  · exact (hshort h' h hba).symm

/-- With the constants of the code, a series has ten runs, whatever their error. -/
theorem Series.length_eq (h : Series exceeds rs) : rs.length = 10 := by
  have hmin : 10 ≤ rs.length := (again_eq_false.mp h.stop).1
  by_contra hne
  have hgo := again_eq_true.mp (h.go 10 (by omega) (by omega))
  have hlen : (rs.take 10).length = 10 := List.length_take_of_le hmin
  rw [hlen] at hgo
  rcases hgo with hgo | ⟨hgo, -⟩ <;> exact absurd hgo (by decide)

/-! ### The local loops -/

/-- What holds of `run` after every iteration. -/
structure LocalRun.Going (exceeds : List τ → Bool) (time : ℕ → τ) (r : LocalRun τ) : Prop where
  isOpen : Open exceeds r.results
  nRuns : r.nRuns = r.results.length
  results : r.results = (List.range r.nRuns).map time
  calls : r.calls = .setup :: iterationCalls [] r.results.dropLast ++ [.prepareIteration [], .runIteration]

namespace LocalRun.Going

variable {r : LocalRun τ}

/-- The calls after the cleanup. -/
theorem cleanup_calls (h : Going exceeds time r) (last : Bool) : ∃ t, r.results.getLast? = some t ∧
    (r.cleanup last).calls = .setup :: iterationCalls [] r.results.dropLast ++
      [.prepareIteration [], .runIteration, .cleanupIteration last t] := by
  obtain ⟨t, ht⟩ : ∃ t, r.results.getLast? = some t := ⟨_, List.getLast?_eq_some_getLast h.isOpen.ne⟩
  refine ⟨t, ht, ?_⟩
  rw [LocalRun.cleanup, ht, h.calls]
  simp only [Option.map_some, Option.toList_some, List.append_assoc, List.cons_append, List.nil_append]

theorem next (h : Going exceeds time r) (hgo : again exceeds r.results = true) :
    Going exceeds time ((r.cleanup false).iteration time) := by
  obtain ⟨t, ht, hcalls⟩ := h.cleanup_calls false
  have hres : ((r.cleanup false).iteration time).results = r.results ++ [time r.nRuns] := rfl
  have hwhole : iterationCalls [] r.results = iterationCalls [] r.results.dropLast ++
      [.prepareIteration [], .runIteration, .cleanupIteration false t] := by
    conv_lhs => rw [← List.dropLast_append_getLast? t ht]
    rw [iterationCalls, List.flatMap_append]
    rfl
  refine ⟨hres ▸ h.isOpen.append hgo _, ?_, ?_, ?_⟩
  · rw [hres, List.length_append, ← h.nRuns]; rfl
  · show r.results ++ [time r.nRuns] = (List.range (r.nRuns + 1)).map time
    rw [List.range_succ, List.map_append, ← h.results]
    rfl
  · show (r.cleanup false).calls ++ [.prepareIteration [], .runIteration] = _
    rw [hcalls, hres, List.dropLast_concat, hwhole]
    simp only [List.append_assoc, List.cons_append, List.nil_append]

theorem minLoop (fuel : ℕ) (h : Going exceeds time r) (hfuel : minRuns ≤ r.nRuns + fuel) :
    Going exceeds time (minLoop time fuel r) ∧ minRuns ≤ (Suite.minLoop time fuel r).nRuns := by
  induction fuel generalizing r with
  | zero => exact ⟨h, hfuel⟩
  | succ fuel ih =>
    unfold Suite.minLoop
    split_ifs with hlt
    · refine ih (h.next (again_eq_true.mpr (Or.inl (h.nRuns ▸ hlt)))) ?_
      show minRuns ≤ r.nRuns + 1 + fuel
      omega
    · exact ⟨h, not_lt.mp hlt⟩

theorem rseLoop (fuel : ℕ) (h : Going exceeds time r) (hmin : minRuns ≤ r.nRuns)
    (hfuel : maxRuns ≤ r.nRuns + fuel) : Going exceeds time (rseLoop exceeds time fuel r) ∧
      again exceeds (Suite.rseLoop exceeds time fuel r).results = false := by
  induction fuel generalizing r with
  | zero =>
    refine ⟨h, again_eq_false.mpr ?_⟩
    rw [Suite.rseLoop, ← h.nRuns]
    exact ⟨hmin, Or.inl hfuel⟩
  | succ fuel ih =>
    unfold Suite.rseLoop
    split_ifs with hgo
    · refine ih (h.next (again_eq_true.mpr (Or.inr (h.nRuns ▸ hgo)))) (Nat.le_succ_of_le hmin) ?_
      show maxRuns ≤ r.nRuns + 1 + fuel
      omega
    · refine ⟨h, ?_⟩
      rw [← Bool.not_eq_true, again_eq_true, ← h.nRuns]
      exact not_or_intro (not_lt.mpr hmin) hgo

end LocalRun.Going

namespace DistributedIteration

variable {it : DistributedIteration τ}

/-- What holds before an iteration is prepared: another run is to follow after each of those before. -/
structure Between (exceeds : List τ → Bool) (it : DistributedIteration τ) : Prop where
  nRuns : it.nRuns = it.results.length
  master : it.master = .setup :: iterationCalls it.data it.results
  go : ∀ k, 0 < k → k ≤ it.results.length → again exceeds (it.results.take k) = true

/-- What holds of the iterations of a whole test. -/
structure Complete (exceeds : List τ → Bool) (it : DistributedIteration τ) : Prop where
  nRuns : it.nRuns = it.results.length
  series : Series exceeds it.results
  master : it.master = .setup :: seriesCalls it.data it.results

theorem between_new (clientData : List (ℕ × String)) : Between exceeds (new [.setup] clientData) :=
  ⟨rfl, rfl, fun _ h0 hk => absurd h0 (Nat.not_lt.mpr hk)⟩

theorem isFinal_eq (it : DistributedIteration τ) (h : it.nRuns = it.results.length) :
    it.isFinal exceeds = !again exceeds it.results := by
  unfold isFinal again
  rw [h]

/-- **An iteration of a distributed test**: it is the last one just when the series ends with it. -/
theorem Between.iterate (h : Between exceeds it) (t : τ) :
    (((it.prepare.run t).isFinal exceeds) = true → Complete exceeds ((it.prepare.run t).cleanup exceeds)) ∧
    (((it.prepare.run t).isFinal exceeds) = false → Between exceeds ((it.prepare.run t).cleanup exceeds)) := by
  have hn : (it.prepare.run t).nRuns = (it.prepare.run t).results.length := by
    show it.nRuns + 1 = (it.results ++ [t]).length
    rw [List.length_append, h.nRuns]; rfl
  have hlast : (it.results ++ [t]).getLast? = some t := List.getLast?_concat
  have hmaster : ((it.prepare.run t).cleanup exceeds).master =
      .setup :: iterationCalls it.data it.results ++ [.prepareIteration it.data, .runIteration,
        .cleanupIteration ((it.prepare.run t).isFinal exceeds) t] := by
    show it.master ++ [_] ++ [_] ++ ((it.results ++ [t]).getLast?.map _).toList = _
    rw [hlast, h.master]
    simp only [Option.map_some, Option.toList_some, List.append_assoc, List.cons_append, List.nil_append]
  rw [isFinal_eq _ hn] at hmaster ⊢
  constructor
  · intro hstop
    rw [Bool.not_eq_true'] at hstop
    refine ⟨hn, ⟨⟨List.append_ne_nil_of_right_ne_nil _ (List.cons_ne_nil _ _), fun k h0 hk => ?_⟩, hstop⟩, ?_⟩
    · have hk' : k < (it.results ++ [t]).length := hk
      rw [List.length_append, List.length_singleton, Nat.lt_succ_iff] at hk'
      show again exceeds ((it.results ++ [t]).take k) = true
      rw [List.take_append_of_le_length hk']
      exact h.go k h0 hk'
    · rw [hmaster, hstop]
      show _ = BenchCall.setup :: seriesCalls it.data (it.results ++ [t])
      rw [seriesCalls_eq it.data hlast, List.dropLast_concat]
      rfl
  · intro hgo
    rw [Bool.not_eq_false'] at hgo
    refine ⟨hn, ?_, fun k h0 hk => ?_⟩
    · rw [hmaster, hgo]
      show _ = BenchCall.setup :: iterationCalls it.data (it.results ++ [t])
      rw [iterationCalls, iterationCalls, List.flatMap_append]
      rfl
    · have hk' : k ≤ (it.results ++ [t]).length := hk
      show again exceeds ((it.results ++ [t]).take k) = true
      rcases Nat.lt_or_eq_of_le hk' with hlt | rfl
      · rw [List.length_append, List.length_singleton, Nat.lt_succ_iff] at hlt
        rw [List.take_append_of_le_length hlt]
        exact h.go k h0 hlt
      · rw [List.take_length]
        exact hgo

end DistributedIteration

end OmniPaxosBench.Suite
