import Mathlib.Algebra.Group.Nat.Defs
import Mathlib.Data.Prod.Lex
import Mathlib.Order.MinMax

/-! # Ballots

A ballot is a number and a pid, ordered by the number first. The number is a `u32` in the code: it is
a natural number here, and the one place that adds to it reduces modulo `2 ^ 32`. -/

namespace OmniPaxosBench.LeaderElection

@[ext]
structure Ballot where
  n : ℕ
  pid : ℕ
  deriving DecidableEq, Repr

/-- What a leader election announces: `Leader<Ballot>`. -/
structure Leader where
  pid : ℕ
  round : Ballot
  deriving DecidableEq, Repr

namespace Ballot

/-- The default ballot. -/
instance : Inhabited Ballot := ⟨⟨0, 0⟩⟩

/-- The fields in the order in which they are compared. -/
def key (b : Ballot) : ℕ ×ₗ ℕ := toLex (b.n, b.pid)

theorem key_injective : Function.Injective key := by
  intro a b h
  have hpair : (a.n, a.pid) = (b.n, b.pid) := h
  exact Ballot.ext (congrArg Prod.fst hpair) (congrArg Prod.snd hpair)

/-- The derived order. -/
instance : LinearOrder Ballot := LinearOrder.lift' key key_injective

instance : Std.LawfulOrderMax Ballot := .of_max_le_iff (fun _ _ _ => max_le_iff) max_choice

variable {a b : Ballot}

theorem lt_iff : a < b ↔ a.n < b.n ∨ (a.n = b.n ∧ a.pid < b.pid) := Prod.Lex.toLex_lt_toLex

theorem le_iff : a ≤ b ↔ a.n < b.n ∨ (a.n = b.n ∧ a.pid ≤ b.pid) := Prod.Lex.toLex_le_toLex

theorem n_le (h : a ≤ b) : a.n ≤ b.n := by
  rcases le_iff.mp h with h | h <;> omega

theorem not_lt_default : ¬ a < default := by
  intro h
  have hn : (default : Ballot).n = 0 ∧ (default : Ballot).pid = 0 := ⟨rfl, rfl⟩
  rcases lt_iff.mp h with h | h <;> omega

end Ballot

/-- A list of ballots has a largest one, and the default stands in for an empty list. -/
def topBallot (ballots : List Ballot) : Ballot := (ballots.max?).getD default

theorem topBallot_spec {ballots : List Ballot} {a : Ballot} (ha : a ∈ ballots) :
    topBallot ballots ∈ ballots ∧ ∀ b ∈ ballots, b ≤ topBallot ballots := by
  cases h : ballots.max? with
  | none =>
    rw [List.max?_eq_none_iff] at h
    rw [h] at ha
    cases ha
  | some m =>
    rw [List.max?_eq_some_iff] at h
    have htop : topBallot ballots = m := by
      rw [topBallot, List.max?_eq_some_iff.mpr h]; rfl
    rw [htop]
    exact h

example : topBallot [⟨1, 3⟩, ⟨2, 1⟩, ⟨2, 2⟩, ⟨1, 1⟩] = ⟨2, 2⟩ := by decide

end OmniPaxosBench.LeaderElection
