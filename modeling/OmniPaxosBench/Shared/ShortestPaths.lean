import OmniPaxosBench.Lib.Walks
import OmniPaxosBench.Shared.Graphs
import Mathlib.Algebra.Order.AddGroupWithTop
import Mathlib.Data.Set.Lattice

/-! # The plain computation finds shortest paths

An entry of a graph is the weight of an edge, and an infinite one is no edge. After the rounds up to `k` the
table has the least lengths of the walks whose inner nodes are below `k` (`distances_walks`), so in the end
those of all paths (`computeFloydWarshall_isDistance`). -/

namespace OmniPaxosBench.Shared.Graphs

open OmniPaxosBench.Lib

variable {T : Type}

/-! ### Rounds and walks -/

section Rounds
variable [AddCommMonoid T] [LinearOrder T] {m : ℕ × ℕ → T} {n k : ℕ}

theorem relaxAt_eq_min (k : ℕ) (m : ℕ × ℕ → T) (c : ℕ × ℕ) :
    relaxAt k m c = min (m c) (m (c.1, k) + m (k, c.2)) := by
  unfold relaxAt
  split_ifs with h
  · exact (min_eq_right h.le).symm
  · exact (min_eq_left (not_lt.mp h)).symm

/-- The nodes below `k + 1`. -/
theorem below_succ (hk : k < n) : {v : Fin n | v.val < k + 1} = insert ⟨k, hk⟩ {v : Fin n | v.val < k} := by
  ext v
  simp only [Set.mem_ofPred_eq, Set.mem_insert_iff, Fin.ext_iff]
  omega

/-- **After `k` rounds** the inner nodes of the walks are those below `k`. -/
theorem distances_walks [IsOrderedAddMonoid T] (h : Weights m) (hk : k ≤ n) :
    Distances (fun i j : Fin n => m (i, j)) {v | v.val < k} fun i j => distances n m k (i, j) := by
  induction k with
  | zero =>
    have hempty : {v : Fin n | v.val < 0} = ∅ := by
      ext v
      simp
    rw [hempty]
    exact distances_empty fun i => h.diagonal i
  | succ k ih =>
    have hstep : (fun i j : Fin n => distances n m (k + 1) (i, j)) = fun i j : Fin n =>
        min (distances n m k (i, j)) (distances n m k (i, k) + distances n m k (k, j)) := by
      funext i j
      rw [distances_succ, relaxed, if_pos ⟨i.isLt, j.isLt⟩, relaxAt_eq_min]
    rw [hstep, below_succ hk]
    exact (ih (Nat.le_of_succ_le hk)).insert (k := ⟨k, hk⟩) ((h.distances n k).nonneg _)

end Rounds

/-! ### Paths -/

section Paths
variable [LinearOrderedAddCommMonoidWithTop T]

/-- A path and the sum of the weights along it. -/
inductive Graph.Path (g : Graph T) : ℕ → ℕ → T → Prop
  | nil {i : ℕ} : i < g.numNodes → Path g i i 0
  | cons {i v j : ℕ} {a t : T} : g.get i v = some a → a ≠ ⊤ → Path g v j t → Path g i j (a + t)

/-- The length of a shortest path, or infinity if there is no path. -/
def Graph.IsDistance (g : Graph T) (i j : ℕ) (d : T) : Prop :=
  IsLeast {t | g.Path i j t} d ∨ (d = ⊤ ∧ ∀ t, ¬ g.Path i j t)

variable {m : ℕ × ℕ → T} {n i j : ℕ} {a t : T}

omit [LinearOrderedAddCommMonoidWithTop T] in
theorem get_ofMatrix_eq_some : (Graph.ofMatrix n m).get i j = some a ↔ i < n ∧ j < n ∧ m (i, j) = a := by
  rcases Nat.lt_or_ge i n with hi | hi
  · rcases Nat.lt_or_ge j n with hj | hj
    · rw [get_ofMatrix m hi hj, Option.some_inj, and_iff_right hi, and_iff_right hj]
    · unfold Graph.get Graph.ofMatrix
      rw [getElem?_map_range _ hi, Option.bind_eq_bind, Option.bind_some,
        List.getElem?_eq_none (by simpa using hj)]
      exact ⟨nofun, fun h => absurd h.2.1 (not_lt.mpr hj)⟩
  · unfold Graph.get Graph.ofMatrix
    rw [List.getElem?_eq_none (by simpa using hi)]
    exact ⟨nofun, fun h => absurd h.1 (not_lt.mpr hi)⟩

/-- A path leads through nodes of the table. -/
theorem Graph.Path.walk (h : (Graph.ofMatrix n m).Path i j t) : ∃ (hi : i < n) (hj : j < n),
    Walk (fun i j : Fin n => m (i, j)) Set.univ ⟨i, hi⟩ ⟨j, hj⟩ t := by
  induction h with
  | nil hi =>
    rw [Graph.numNodes, ofMatrix_data_length] at hi
    exact ⟨hi, hi, .stay _⟩
  | cons hget _ _ ih =>
    obtain ⟨hi, hv, rfl⟩ := get_ofMatrix_eq_some.mp hget
    obtain ⟨_, hj, hwalk⟩ := ih
    exact ⟨hi, hj, .through (Set.mem_univ _) hwalk⟩

theorem Graph.Path.edge (hi : i < n) (hj : j < n) (ht : m (i, j) ≠ ⊤) :
    (Graph.ofMatrix n m).Path i j (m (i, j)) := by
  have hlast : (Graph.ofMatrix n m).Path j j 0 := .nil (by rwa [Graph.numNodes, ofMatrix_data_length])
  have hpath := Graph.Path.cons (get_ofMatrix m hi hj) ht hlast
  rwa [add_zero] at hpath

/-- A walk has infinite length if it uses an entry that is no edge. -/
theorem path_of_walk {u v : Fin n} (h : Walk (fun i j : Fin n => m (i, j)) Set.univ u v t) :
    t = ⊤ ∨ (Graph.ofMatrix n m).Path u v t := by
  induction h with
  | stay i => exact .inr (.nil (by simp [Graph.numNodes]))
  | edge i j => exact (eq_or_ne _ _).imp_right (.edge i.isLt j.isLt)
  | @through i v j t _ _ ih =>
    rcases eq_or_ne (m (i, v)) ⊤ with htop | hedge
    · exact .inl (by rw [htop, top_add])
    · rcases ih with rfl | hpath
      · exact .inl (add_top _)
      · exact .inr (.cons (get_ofMatrix m i.isLt v.isLt) hedge hpath)

theorem isDistance_of_distances {d : Fin n → Fin n → T} (h : Distances (fun i j : Fin n => m (i, j)) Set.univ d)
    (u v : Fin n) : (Graph.ofMatrix n m).IsDistance u v (d u v) := by
  obtain ⟨hwalk, hleast⟩ := h u v
  have hle : ∀ t, (Graph.ofMatrix n m).Path u v t → d u v ≤ t := fun t ht => hleast ht.walk.2.2
  rcases path_of_walk hwalk with htop | hpath
  · by_cases hex : ∃ t, (Graph.ofMatrix n m).Path u v t
    · -- the sum along this path is infinite
      obtain ⟨t, ht⟩ := hex
      have heq : t = d u v := by
        rw [htop]
        exact top_le_iff.mp (htop ▸ hle t ht)
      exact .inl ⟨heq ▸ ht, hle⟩
    · exact .inr ⟨htop, not_exists.mp hex⟩
  · exact .inl ⟨hpath, hle⟩

/-- **The plain computation finds the shortest paths**: it returns, and the entry `(i, j)` of the result is the
least sum of weights along a path from `i` to `j`, or infinity if there is none. -/
theorem computeFloydWarshall_isDistance {g : Graph T} {n : ℕ} (hlen : g.data.length = n)
    (hrow : ∀ row ∈ g.data, row.length = n) (hdiag : ∀ i < n, g.get i i = some 0)
    (hnonneg : ∀ i j v, g.get i j = some v → 0 ≤ v) :
    ∃ g', g.computeFloydWarshall = some g' ∧
      ∀ i < n, ∀ j < n, ∃ d, g'.get i j = some d ∧ g.IsDistance i j d := by
  have hg := exists_ofMatrix hlen hrow
  have hw := weights_of_get hlen hdiag hnonneg
  generalize (fun c : ℕ × ℕ => (g.get c.1 c.2).getD 0) = m at hg hw
  subst hg
  refine ⟨Graph.ofMatrix n (distances n m n), ?_, fun i hi j hj =>
    ⟨distances n m n (i, j), get_ofMatrix _ hi hj, ?_⟩⟩
  · rw [Graph.computeFloydWarshall, ofMatrix_data_length]
    exact hw.computeRounds (Nat.le_refl n)
  · have hall : {v : Fin n | v.val < n} = Set.univ := Set.eq_univ_of_forall Fin.isLt
    have h := distances_walks hw (Nat.le_refl n)
    rw [hall] at h
    exact isDistance_of_distances h ⟨i, hi⟩ ⟨j, hj⟩

/-- From the first node of `fourNodes` the edge of weight `7` is no shortest path, and the last node is
reached at distance `7`. -/
theorem fourNodes_isDistance : ∃ g', fourNodes.computeFloydWarshall = some g' ∧
    g'.get 0 1 = some 6 ∧ fourNodes.IsDistance 0 1 6 ∧
    g'.get 0 3 = some 7 ∧ fourNodes.IsDistance 0 3 7 := by
  obtain ⟨g', hg, hdist⟩ := computeFloydWarshall_isDistance (g := fourNodes) (n := 4) rfl (by decide)
    (by decide) fun _ _ _ _ => zero_le
  obtain rfl := Option.some.inj (hg.symm.trans fourNodes_computeFloydWarshall)
  obtain ⟨d₁, hget₁, hd₁⟩ := hdist 0 (by decide) 1 (by decide)
  obtain ⟨d₃, hget₃, hd₃⟩ := hdist 0 (by decide) 3 (by decide)
  obtain rfl : (6 : WithTop ℕ) = d₁ := Option.some.inj hget₁
  obtain rfl : (7 : WithTop ℕ) = d₃ := Option.some.inj hget₃
  exact ⟨_, hg, rfl, hd₁, rfl, hd₃⟩

end Paths

end OmniPaxosBench.Shared.Graphs
