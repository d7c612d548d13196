import Mathlib.Data.Set.Insert
import Mathlib.Data.List.Basic

/-! # Linearizable histories

A history is a set of operations with a relation `before`: an operation is before another if it has
returned when the other is called. A sequential object says which operations its state accepts and
what they do to it. A history is *linearizable* from a state if its operations can be put into one
order that keeps `before` and in which the object accepts each operation in the state its predecessors
lead to (`Linearizable`).

* `legal_cons`, `keepsOrder_cons`: what the two conditions say of the first operation.
* `linearizable_empty`, `linearizable_iff`: a non-empty history is linearizable just when some operation
  that no other one is before can come first and the rest is linearizable after it. This is the rule
  a search over the possible first operations rests on. -/

namespace OmniPaxosBench.Lib

universe u v

/-- A sequential object with states `σ` and operations `α`. -/
structure SequentialObject (σ : Type u) (α : Type v) where
  accepts : σ → α → Prop
  effect : σ → α → σ

variable {σ : Type u} {α : Type v} {obj : SequentialObject σ α} {before : α → α → Prop}

/-- Each operation is accepted in the state that the operations in front of it lead to. -/
def Legal (obj : SequentialObject σ α) (s : σ) (l : List α) : Prop :=
  ∀ l₁ a l₂, l = l₁ ++ a :: l₂ → obj.accepts (l₁.foldl obj.effect s) a

/-- An operation that is before another does not come after it. -/
def KeepsOrder (before : α → α → Prop) (l : List α) : Prop := l.Pairwise fun a b => ¬ before b a

/-- **The operations of `H` have an order** that keeps `before` and is legal from `s`. -/
def Linearizable (obj : SequentialObject σ α) (before : α → α → Prop) (s : σ) (H : Set α) : Prop :=
  ∃ l : List α, l.Nodup ∧ (∀ a, a ∈ l ↔ a ∈ H) ∧ KeepsOrder before l ∧ Legal obj s l

theorem legal_nil (s : σ) : Legal obj s [] := by
  intro l₁ a l₂ h
  simp at h

theorem legal_cons {s : σ} {a : α} {l : List α} :
    Legal obj s (a :: l) ↔ obj.accepts s a ∧ Legal obj (obj.effect s a) l := by
  constructor
  · intro h
    refine ⟨h [] a l rfl, fun l₁ b l₂ hl => ?_⟩
    exact h (a :: l₁) b l₂ (by rw [hl, List.cons_append])
  · rintro ⟨ha, hrest⟩ l₁ b l₂ hl
    cases l₁ with
    | nil =>
      obtain ⟨rfl, rfl⟩ := List.cons.inj hl
      exact ha
    | cons c l₁ =>
      obtain ⟨rfl, hl'⟩ := List.cons.inj hl
      exact hrest l₁ b l₂ hl'

theorem keepsOrder_cons {a : α} {l : List α} :
    KeepsOrder before (a :: l) ↔ (∀ b ∈ l, ¬ before b a) ∧ KeepsOrder before l :=
  List.pairwise_cons

/-- A history without operations is linearizable. -/
theorem linearizable_empty (s : σ) : Linearizable obj before s ∅ :=
  ⟨[], List.nodup_nil, fun _ => by simp, List.Pairwise.nil, legal_nil s⟩

/-- A possible first operation, with a linearization of the rest. -/
theorem Linearizable.cons {s : σ} {H : Set α} {a : α} (ha : a ∈ H) (hmin : ∀ b ∈ H, b ≠ a → ¬ before b a)
    (hacc : obj.accepts s a) (h : Linearizable obj before (obj.effect s a) (H \ {a})) :
    Linearizable obj before s H := by
  obtain ⟨l, hnd, hmem, hord, hleg⟩ := h
  have hal : a ∉ l := fun hin => ((hmem a).mp hin).2 rfl
  refine ⟨a :: l, List.nodup_cons.mpr ⟨hal, hnd⟩, fun b => ?_, keepsOrder_cons.mpr ⟨?_, hord⟩,
    legal_cons.mpr ⟨hacc, hleg⟩⟩
  · rw [List.mem_cons, hmem]
    constructor
    · rintro (rfl | hb)
      · exact ha
      · exact hb.1
    · intro hb
      by_cases hba : b = a
      · exact .inl hba
      · exact .inr ⟨hb, hba⟩
  · intro b hb
    have := (hmem b).mp hb
    exact hmin b this.1 this.2

/-- **The search rule**: a history with an operation is linearizable just when some operation can come
first. -/
theorem linearizable_iff {s : σ} {H : Set α} (hne : H.Nonempty) :
    Linearizable obj before s H ↔ ∃ a ∈ H, (∀ b ∈ H, b ≠ a → ¬ before b a) ∧ obj.accepts s a ∧
      Linearizable obj before (obj.effect s a) (H \ {a}) := by
  constructor
  · rintro ⟨l, hnd, hmem, hord, hleg⟩
    cases l with
    | nil =>
      obtain ⟨a, ha⟩ := hne
      cases (hmem a).mpr ha
    | cons a l =>
      obtain ⟨hal, hnd⟩ := List.nodup_cons.mp hnd
      obtain ⟨hmin, hord⟩ := keepsOrder_cons.mp hord
      obtain ⟨hacc, hleg⟩ := legal_cons.mp hleg
      refine ⟨a, (hmem a).mp List.mem_cons_self, fun b hb hba => ?_, hacc, l, hnd, fun b => ?_, hord,
        hleg⟩
      · rcases List.mem_cons.mp ((hmem b).mpr hb) with rfl | hb
        · exact absurd rfl hba
        · exact hmin b hb
      · rw [Set.mem_sdiff, Set.mem_singleton_iff, ← hmem, List.mem_cons]
        constructor
        · intro hb
          exact ⟨.inr hb, fun h => hal (h ▸ hb)⟩
        · rintro ⟨rfl | hb, hne⟩
          · exact absurd rfl hne
          · exact hb
  · rintro ⟨a, ha, hmin, hacc, hrest⟩
    exact Linearizable.cons ha hmin hacc hrest

end OmniPaxosBench.Lib
