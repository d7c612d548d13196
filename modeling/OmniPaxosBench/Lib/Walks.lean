import Mathlib.Algebra.Order.Monoid.Unbundled.Basic
import Mathlib.Algebra.Order.Monoid.Defs
import Mathlib.Data.Set.Insert
import Mathlib.Order.Bounds.Basic

/-! # Walks and distances

A walk through a table of weights leads from one node to another by way of inner nodes; its length is
the sum of the weights on the way. `Distances` says that a table holds the least lengths of the walks
whose inner nodes are in a given set. One more inner node `k` takes one update of the table: a walk does
without `k`, or it leads to `k` and from there on (`Distances.insert`). -/

namespace OmniPaxosBench.Lib

universe u v

variable {V : Type u} {T : Type v}

section Walks
variable [AddCommMonoid T] {weight : V → V → T} {inner inner' : Set V} {i j k : V} {s t : T}

/-- A walk and its length. Nodes may be passed more than once. -/
inductive Walk (weight : V → V → T) (inner : Set V) : V → V → T → Prop
  | stay (i : V) : Walk weight inner i i 0
  | edge (i j : V) : Walk weight inner i j (weight i j)
  | through {i v j : V} {t : T} : v ∈ inner → Walk weight inner v j t → Walk weight inner i j (weight i v + t)

theorem Walk.mono (h : Walk weight inner i j t) (hsub : inner ⊆ inner') : Walk weight inner' i j t := by
  induction h with
  | stay i => exact .stay i
  | edge i j => exact .edge i j
  | through hv _ ih => exact .through (hsub hv) ih

theorem Walk.append (h : Walk weight inner i k s) (hk : k ∈ inner) (h' : Walk weight inner k j t) :
    Walk weight inner i j (s + t) := by
  induction h with
  | stay i =>
    rw [zero_add]
    exact h'
  | edge i k => exact .through hk h'
  | through hv _ ih =>
    rw [add_assoc]
    exact .through hv (ih hk h')

end Walks

section Distances
variable [AddCommMonoid T] [LinearOrder T] {weight d : V → V → T} {inner : Set V} {k : V}

/-- The least lengths of the walks with inner nodes in `inner`. -/
def Distances (weight : V → V → T) (inner : Set V) (d : V → V → T) : Prop :=
  ∀ i j, IsLeast {t | Walk weight inner i j t} (d i j)

/-- Without inner nodes the weights are the distances. -/
theorem distances_empty (hdiag : ∀ i, weight i i = 0) : Distances weight ∅ weight := by
  intro i j
  refine ⟨.edge i j, fun t ht => ?_⟩
  cases ht with
  | stay => exact (hdiag i).le
  | edge => exact le_rfl
  | through hv _ => exact absurd hv (Set.notMem_empty _)

/-- **One more inner node.** -/
theorem Distances.insert [IsOrderedAddMonoid T] (h : Distances weight inner d) (hk : 0 ≤ d k k) :
    Distances weight (insert k inner) fun i j => min (d i j) (d i k + d k j) := by
  have hsub : inner ⊆ Insert.insert k inner := Set.subset_insert k inner
  intro i j
  constructor
  · change Walk _ _ i j (min (d i j) (d i k + d k j))
    rcases min_choice (d i j) (d i k + d k j) with hmin | hmin
    · rw [hmin]
      exact (h i j).1.mono hsub
    · rw [hmin]
      exact ((h i k).1.mono hsub).append (Set.mem_insert k inner) ((h k j).1.mono hsub)
  · intro t ht
    induction ht with
    | stay i => exact (min_le_left _ _).trans ((h i i).2 (.stay i))
    | edge i j => exact (min_le_left _ _).trans ((h i j).2 (.edge i j))
    | @through i v j t hv _ ih =>
      have htail : weight i v + min (d v j) (d v k + d k j) ≤ weight i v + t := add_le_add_right ih _
      refine le_trans ?_ htail
      rcases hv with rfl | hv
      · -- the walk goes to `k` first; coming back to `k` is no shorter
        have hfirst : d i v ≤ weight i v := (h i v).2 (.edge i v)
        have hrest : d v j ≤ min (d v j) (d v v + d v j) := le_min le_rfl (le_add_of_nonneg_left hk)
        exact (min_le_right _ _).trans (add_le_add hfirst hrest)
      · rcases min_choice (d v j) (d v k + d k j) with hmin | hmin
        · rw [hmin]
          exact (min_le_left _ _).trans ((h i j).2 (.through hv (h v j).1))
        · rw [hmin, ← add_assoc]
          have hfirst : d i k ≤ weight i v + d v k := (h i k).2 (.through hv (h v k).1)
          exact (min_le_right _ _).trans (add_le_add_left hfirst _)

end Distances

end OmniPaxosBench.Lib
