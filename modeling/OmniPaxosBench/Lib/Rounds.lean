import Mathlib.Order.Nat

/-! # Rounds of requests and replies

Everyone asks the others in rounds. A request carries the number of the round, and a reply the number of
the request it answers; a reply counts if that is the number of the present round of who asked. Messages
can be late, lost or duplicated, so replies of earlier rounds may still arrive, but none of a later round
(`Sound`), and a reply that counts was given after the round had begun (`Step.counts`). -/

namespace OmniPaxosBench.Lib

universe u v w

/-- What can be seen of a system in rounds. -/
structure Rounds (σ : Type u) (ι : Type v) (ρ : Type w) where
  round : σ → ι → ℕ
  /-- A request of this round was sent. -/
  Asked : σ → ι → ℕ → Prop
  /-- The reply was sent to this one. -/
  Answered : σ → ι → ρ → Prop
  number : ρ → ℕ

namespace Rounds

variable {σ : Type u} {ι : Type v} {ρ : Type w} (R : Rounds σ ι ρ)

/-- No message is of a round to come. -/
structure Sound (s : σ) : Prop where
  asked : ∀ i r, R.Asked s i r → r ≤ R.round s i
  answered : ∀ i m, R.Answered s i m → R.number m ≤ R.round s i

/-- The reply may still arrive in the round it belongs to. -/
def Counts (s : σ) (i : ι) (m : ρ) : Prop := R.Answered s i m ∧ R.number m = R.round s i

/-- A step: the round of who `ends` it is over, the requests are of the present round, and the replies,
described by `New`, answer requests that were sent. -/
structure Step (ends : ι → Prop) (New : ι → ρ → Prop) (s t : σ) : Prop where
  next : ∀ i, ends i → R.round t i = R.round s i + 1
  same : ∀ i, ¬ ends i → R.round t i = R.round s i
  asked : ∀ i r, R.Asked t i r → R.Asked s i r ∨ r = R.round t i
  answered : ∀ i m, R.Answered t i m → R.Answered s i m ∨ (R.Asked s i (R.number m) ∧ New i m)

variable {R} {ends : ι → Prop} {New : ι → ρ → Prop} {s t : σ} {i : ι} {m : ρ}

theorem Step.round_le (h : R.Step ends New s t) (i : ι) : R.round s i ≤ R.round t i := by
  by_cases hi : ends i
  · rw [h.next i hi]
    exact Nat.le_succ _
  · exact (h.same i hi).ge

theorem Step.number_le (h : R.Step ends New s t) (hs : R.Sound s) (ht : R.Answered t i m) :
    R.number m ≤ R.round s i := by
  rcases h.answered i m ht with hold | ⟨hasked, -⟩
  · exact hs.answered i m hold
  · exact hs.asked i _ hasked

theorem Step.sound (h : R.Step ends New s t) (hs : R.Sound s) : R.Sound t := by
  refine ⟨fun i r hr => ?_, fun i m hm => (h.number_le hs hm).trans (h.round_le i)⟩
  rcases h.asked i r hr with hold | hnew
  · exact (hs.asked i r hold).trans (h.round_le i)
  · exact hnew.le

/-- **The replies that count** counted before, or have just been given; after the end of a round there
are none. -/
theorem Step.counts (h : R.Step ends New s t) (hs : R.Sound s) (ht : R.Counts t i m) :
    ¬ ends i ∧ (R.Counts s i m ∨ New i m) := by
  have hle := h.number_le hs ht.1
  have hnot : ¬ ends i := by
    intro hi
    have hnum := ht.2
    rw [h.next i hi] at hnum
    omega
  refine ⟨hnot, ?_⟩
  rcases h.answered i m ht.1 with hold | ⟨-, hnew⟩
  · exact Or.inl ⟨hold, ht.2.trans (h.same i hnot)⟩
  · exact Or.inr hnew

end Rounds

end OmniPaxosBench.Lib
