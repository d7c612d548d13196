import Mathlib.Data.Finset.Card
import Mathlib.Order.WellFounded

/-! # Voting by majorities

The combinatorial core of the Paxos family, for a single decision. Rounds come from a well-ordered
type `R`; `proposed r v` says that `v` was proposed in round `r`, `voted a r v` that voter `a` voted
for it there. A proposal is `Safe` if a majority shows that no other value can have been chosen below
its round: none of the majority ever votes below it, or the proposal repeats the value of the highest
round any of them votes in. Under this rule at most one value is ever chosen (`chosen_unique`).

The predicates speak about all votes that are ever cast, so nothing here depends on the order in
which they are cast. -/

namespace OmniPaxosBench.Lib

section Majority

variable {A : Type*} [DecidableEq A]

/-- `Q` is a majority of the voters `U`. -/
def IsMajority (U Q : Finset A) : Prop := Q ⊆ U ∧ U.card / 2 + 1 ≤ Q.card

/-- **Two majorities meet.** -/
theorem IsMajority.inter {U Q Q' : Finset A} (h : IsMajority U Q) (h' : IsMajority U Q') :
    ∃ a, a ∈ Q ∧ a ∈ Q' := by
  have hc : U.card < Q.card + Q'.card := by have := h.2; have := h'.2; omega
  obtain ⟨a, ha⟩ := Finset.inter_nonempty_of_card_lt_card_add_card h.1 h'.1 hc
  exact ⟨a, Finset.mem_inter.mp ha⟩

end Majority

section Voting

variable {A R V : Type*} [DecidableEq A] [LinearOrder R] [WellFoundedLT R]
variable (U : Finset A) (proposed : R → V → Prop) (voted : A → R → V → Prop)

/-- `v` is chosen in round `r`: a majority voted for it there. -/
def ChosenIn (r : R) (v : V) : Prop := ∃ Q, IsMajority U Q ∧ ∀ a ∈ Q, voted a r v

/-- Proposing `v` in round `r` is safe: a majority shows that nothing else is chosen below `r`. -/
def Safe (r : R) (v : V) : Prop :=
  ∃ Q, IsMajority U Q ∧
    ((∀ a ∈ Q, ∀ r' < r, ∀ w, ¬ voted a r' w) ∨
      ∃ r₀ < r, (∃ a, voted a r₀ v) ∧ ∀ a ∈ Q, ∀ r', r₀ < r' → r' < r → ∀ w, ¬ voted a r' w)

variable {U proposed voted}

/-- Whatever is proposed at or above a round in which `v` was chosen is `v`. -/
theorem proposed_eq_of_chosen (hone : ∀ r v w, proposed r v → proposed r w → v = w)
    (hvote : ∀ a r v, voted a r v → proposed r v)
    (hsafe : ∀ r v, proposed r v → Safe U voted r v) {r : R} {v : V}
    (hv : ChosenIn U voted r v) : ∀ r' w, r ≤ r' → proposed r' w → w = v := by
  obtain ⟨Q, hQ, hQv⟩ := hv
  intro r'
  induction r' using WellFoundedLT.induction with
  | ind r' ih =>
    intro w hle hw
    obtain ⟨Q', hQ', hsafe'⟩ := hsafe r' w hw
    obtain ⟨a, haQ, haQ'⟩ := hQ.inter hQ'
    rcases eq_or_lt_of_le hle with rfl | hlt
    · exact hone r w v hw (hvote a r v (hQv a haQ))
    · rcases hsafe' with hnone | ⟨r₀, hr₀, ⟨b, hb⟩, hmax⟩
      · exact absurd (hQv a haQ) (hnone a haQ' r hlt v)
      · -- the common voter bounds the round the value was taken from
        have hr : r ≤ r₀ := by
          by_contra hcon
          exact hmax a haQ' r (not_le.mp hcon) hlt v (hQv a haQ)
        exact ih r₀ hr₀ w hr (hvote b r₀ w hb)

/-- **At most one value is chosen**, over all rounds. -/
theorem chosen_unique (hone : ∀ r v w, proposed r v → proposed r w → v = w)
    (hvote : ∀ a r v, voted a r v → proposed r v)
    (hsafe : ∀ r v, proposed r v → Safe U voted r v) {r r' : R} {v w : V}
    (hv : ChosenIn U voted r v) (hw : ChosenIn U voted r' w) : v = w := by
  have hprop : ∀ {r v}, ChosenIn U voted r v → proposed r v := by
    rintro r v ⟨Q, hQ, hQv⟩
    obtain ⟨a, ha, -⟩ := hQ.inter hQ
    exact hvote a r v (hQv a ha)
  rcases le_total r r' with h | h
  · exact (proposed_eq_of_chosen hone hvote hsafe hv r' w h (hprop hw)).symm
  · exact proposed_eq_of_chosen hone hvote hsafe hw r v h (hprop hv)

end Voting

end OmniPaxosBench.Lib
