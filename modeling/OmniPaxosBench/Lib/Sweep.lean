import OmniPaxosBench.Lib.Pieces
import Mathlib.Logic.Function.Basic
import Mathlib.Data.List.Induction

/-! # Sweeps

A sweep visits the cells of a table one after the other and replaces the value of each by one computed
from the table as it stands, so later cells see what earlier ones have become. If the update of a cell
looks only at the cell itself and at *stable* cells, those whose update changes nothing, then a sweep
that visits no cell twice is the simultaneous update of all the cells it visits, whatever the order
(`sweep_eq`).

The first part is about programs that can fail: a fold each of whose steps is a step on represented
states is the pure fold on them (`foldlM_eq_some`). -/

namespace OmniPaxosBench.Lib

universe u v w

section Folds
variable {σ : Type u} {τ : Type u} {α : Type v}

/-- **Simulation of a fold**: steps that keep an invariant do not fail and are steps of `g`. -/
theorem foldlM_eq_some {r : σ → τ} {f : τ → α → Option τ} {g : σ → α → σ} {I : σ → Prop}
    {l : List α} (hstep : ∀ s, I s → ∀ x ∈ l, f (r s) x = some (r (g s x)) ∧ I (g s x)) {s : σ}
    (hs : I s) : l.foldlM f (r s) = some (r (l.foldl g s)) ∧ I (l.foldl g s) := by
  induction l generalizing s with
  | nil => exact ⟨rfl, hs⟩
  | cons x l ih =>
    obtain ⟨hx, hI⟩ := hstep s hs x List.mem_cons_self
    rw [List.foldlM_cons, hx]
    exact ih (fun s hs y hy => hstep s hs y (List.mem_cons_of_mem _ hy)) hI

end Folds

section Sweep
variable {κ : Type u} {T : Type v} [DecidableEq κ]

/-- Visit the cells of a list; `g s c` is the new value of the cell `c` in the table `s`. -/
def sweep (g : (κ → T) → κ → T) (cells : List κ) (s : κ → T) : κ → T :=
  cells.foldl (fun s c => Function.update s c (g s c)) s

/-- The update of a cell looks only at the cell and at stable cells of `s₀`. -/
structure Local (g : (κ → T) → κ → T) (stable : κ → Prop) (s₀ : κ → T) : Prop where
  reads : ∀ s c, (∀ d, stable d → s d = s₀ d) → s c = s₀ c → g s c = g s₀ c
  keeps : ∀ c, stable c → g s₀ c = s₀ c

variable {g : (κ → T) → κ → T} {stable : κ → Prop} {s₀ : κ → T}

/-- **A sweep is a simultaneous update.** -/
theorem sweep_eq (h : Local g stable s₀) {cells : List κ} (hnd : cells.Nodup) :
    sweep g cells s₀ = fun c => if c ∈ cells then g s₀ c else s₀ c := by
  induction cells using List.reverseRecOn with
  | nil => rfl
  | append_singleton cells c ih =>
    obtain ⟨hnd, -, hdisj⟩ := List.nodup_append.mp hnd
    have hc : c ∉ cells := fun hin => hdisj c hin c List.mem_cons_self rfl
    rw [sweep, List.foldl_append, List.foldl_cons, List.foldl_nil]
    change Function.update (sweep g cells s₀) c (g (sweep g cells s₀) c) = _
    have hnew : g (sweep g cells s₀) c = g s₀ c := by
      refine h.reads _ c (fun d hd => ?_) ?_
      · rw [ih hnd]
        dsimp only
        split_ifs
        · exact h.keeps d hd
        · rfl
      · rw [ih hnd]
        exact if_neg hc
    rw [hnew, ih hnd]
    funext d
    by_cases hd : d = c
    · subst hd
      rw [Function.update_self, if_pos (by simp)]
    · rw [Function.update_of_ne hd]
      simp [hd]

/-- Stable cells keep their values. -/
theorem sweep_stable (h : Local g stable s₀) {cells : List κ} (hnd : cells.Nodup) {c : κ}
    (hc : stable c) : sweep g cells s₀ c = s₀ c := by
  rw [sweep_eq h hnd]
  dsimp only
  split_ifs
  · exact h.keeps c hc
  · rfl

end Sweep

end OmniPaxosBench.Lib
