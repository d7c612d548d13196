import Mathlib.Order.Interval.Finset.Nat

/-! # Numbered requests in flight

A client numbers its requests one after the other. At any time each number given out so far is either in
flight or done, and never both. `Ledger` says so; `propose` and `answer` are the two ways in which it
moves. -/

namespace OmniPaxosBench.Lib

/-- The numbers after `base` up to `latest` are split into those in flight and those that are done. -/
structure Ledger (base latest : ℕ) (inFlight done : Finset ℕ) : Prop where
  le : base ≤ latest
  disjoint : Disjoint inFlight done
  union : inFlight ∪ done = Finset.Ioc base latest

namespace Ledger

variable {base latest : ℕ} {inFlight done : Finset ℕ} {id : ℕ}

theorem empty (base : ℕ) : Ledger base base ∅ ∅ := ⟨le_rfl, Finset.disjoint_empty_left ∅, by simp⟩

theorem mem_inFlight (h : Ledger base latest inFlight done) (hid : id ∈ inFlight) : base < id ∧ id ≤ latest :=
  Finset.mem_Ioc.mp (h.union ▸ Finset.mem_union_left done hid)

theorem mem_done (h : Ledger base latest inFlight done) (hid : id ∈ done) : base < id ∧ id ≤ latest :=
  Finset.mem_Ioc.mp (h.union ▸ Finset.mem_union_right inFlight hid)

/-- Every number given out is counted once. -/
theorem card (h : Ledger base latest inFlight done) : inFlight.card + done.card = latest - base := by
  rw [← Finset.card_union_of_disjoint h.disjoint, h.union, Nat.card_Ioc]

/-- The next `n` numbers are given out. -/
theorem propose (h : Ledger base latest inFlight done) (n : ℕ) :
    Ledger base (latest + n) (inFlight ∪ (List.range' (latest + 1) n).toFinset) done := by
  have hle := h.le
  have hnew : ∀ id, id ∈ (List.range' (latest + 1) n).toFinset ↔ latest < id ∧ id ≤ latest + n := fun id => by
    rw [List.mem_toFinset, List.mem_range'_1]
    omega
  refine ⟨by omega, Finset.disjoint_union_left.mpr ⟨h.disjoint, ?_⟩, ?_⟩
  · refine Finset.disjoint_left.mpr fun id hid hdone => ?_
    have := (hnew id).mp hid
    have := h.mem_done hdone
    omega
  · rw [Finset.union_right_comm, h.union]
    ext id
    rw [Finset.mem_union, hnew, Finset.mem_Ioc, Finset.mem_Ioc]
    omega

/-- A request is answered. -/
theorem answer (h : Ledger base latest inFlight done) (hid : id ∈ inFlight) :
    Ledger base latest (inFlight.erase id) (insert id done) := by
  refine ⟨h.le, ?_, ?_⟩
  · refine Finset.disjoint_insert_right.mpr ⟨Finset.notMem_erase id inFlight, ?_⟩
    exact h.disjoint.mono_left (Finset.erase_subset id inFlight)
  · rw [Finset.union_insert, ← Finset.insert_union, Finset.insert_erase hid, h.union]

end Ledger

end OmniPaxosBench.Lib
