import Mathlib.Data.Finset.Card
import Mathlib.Data.Finset.Insert
import Mathlib.Data.Finset.Range
import Mathlib.Order.Bounds.Basic

/-! # The prefix of a set of numbers

A set of numbers is filled in any order. Its prefix ends at the least number that is missing; the set
has holes if it has elements behind that number. Counting tells whether it has: the set has as many
elements as its prefix just when there are no holes (`card_eq_iff`). -/

namespace OmniPaxosBench.Lib

/-- `m` is the least number that is not in `S`. -/
def LeastMissing (S : Finset ℕ) (m : ℕ) : Prop := IsLeast {k | k ∉ S} m

namespace LeastMissing

variable {S : Finset ℕ} {m m' k : ℕ}

theorem intro (hm : m ∉ S) (hlt : ∀ k < m, k ∈ S) : LeastMissing S m := by
  refine ⟨hm, fun k hk => ?_⟩
  by_contra hlt'
  exact hk (hlt k (Nat.lt_of_not_le hlt'))

theorem notMem (h : LeastMissing S m) : m ∉ S := h.1

theorem mem_of_lt (h : LeastMissing S m) (hk : k < m) : k ∈ S := by
  by_contra hnot
  exact absurd (h.2 hnot) (Nat.not_le.mpr hk)

theorem unique (h : LeastMissing S m) (h' : LeastMissing S m') : m = m' := IsLeast.unique h h'

theorem range_subset (h : LeastMissing S m) : Finset.range m ⊆ S :=
  fun _ hk => h.mem_of_lt (Finset.mem_range.mp hk)

theorem le_card (h : LeastMissing S m) : m ≤ S.card := by
  have := Finset.card_le_card h.range_subset
  rwa [Finset.card_range] at this

/-- **Counting finds holes**: the set has more elements than its prefix just when one of them is above
a missing number. -/
theorem card_eq_iff (h : LeastMissing S m) : S.card = m ↔ ∀ s ∈ S, ∀ k < s, k ∈ S := by
  constructor
  · intro hcard s hs k hk
    have heq : Finset.range m = S :=
      Finset.eq_of_subset_of_card_le h.range_subset (by rw [Finset.card_range, hcard])
    rw [← heq, Finset.mem_range] at hs ⊢
    omega
  · intro hall
    have heq : S = Finset.range m := by
      refine Finset.Subset.antisymm (fun s hs => ?_) h.range_subset
      rw [Finset.mem_range]
      by_contra hge
      rcases Nat.lt_or_eq_of_le (Nat.le_of_not_lt hge) with hlt | rfl
      · exact h.notMem (hall s hs m hlt)
      · exact h.notMem hs
    rw [heq, Finset.card_range]

/-- A number behind the first hole leaves the prefix alone. -/
theorem insert_of_ne (h : LeastMissing S m) (hk : k ≠ m) : LeastMissing (insert k S) m := by
  refine intro (fun hin => ?_) fun j hj => Finset.mem_insert_of_mem (h.mem_of_lt hj)
  rcases Finset.mem_insert.mp hin with heq | hin
  · exact hk heq.symm
  · exact h.notMem hin

end LeastMissing

end OmniPaxosBench.Lib
