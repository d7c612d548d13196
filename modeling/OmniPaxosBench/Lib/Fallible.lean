import Mathlib.Logic.Basic

/-! # Fallible computations

How a computation in `Except` that is built with `do` succeeds or fails: the rules by which the proofs
take it apart, step after step. -/

namespace OmniPaxosBench.Lib

universe u v

variable {ε : Type u} {α β : Type v} {x : Except ε α} {f : α → Except ε β} {g : α → β} {b : β} {e : ε}

theorem bind_eq_ok : x >>= f = .ok b ↔ ∃ a, x = .ok a ∧ f a = .ok b := by
  cases x with
  | ok a => simp [bind, Except.bind]
  | error e => simp [bind, Except.bind]

theorem bind_eq_error : x >>= f = .error e ↔ x = .error e ∨ ∃ a, x = .ok a ∧ f a = .error e := by
  cases x with
  | ok a => simp [bind, Except.bind]
  | error e => simp [bind, Except.bind]

theorem map_eq_ok : x.map g = .ok b ↔ ∃ a, x = .ok a ∧ g a = b := by
  cases x with
  | ok a => simp [Except.map]
  | error e => simp [Except.map]

theorem map_eq_error : x.map g = .error e ↔ x = .error e := by
  cases x with
  | ok a => simp [Except.map]
  | error e => simp [Except.map]

/-- What holds of every result holds of all results. -/
theorem forall_mem_of_mapM {P : β → Prop} (hf : ∀ a b, f a = .ok b → P b) {l : List α} {bs : List β}
    (h : l.mapM f = .ok bs) : ∀ b ∈ bs, P b := by
  induction l generalizing bs with
  | nil =>
    cases h
    simp
  | cons a l ih =>
    rw [List.mapM_cons] at h
    obtain ⟨b, hb, hrest⟩ := bind_eq_ok.mp h
    obtain ⟨bs', hbs', hend⟩ := bind_eq_ok.mp hrest
    cases hend
    exact List.forall_mem_cons.mpr ⟨hf a b hb, ih hbs'⟩

/-- **The invariant rule for a loop**: what every round keeps holds after all of them. -/
theorem foldlM_invariant {γ : Type v} {P : γ → Prop} {k : γ → α → Except ε γ}
    (hk : ∀ c a c', P c → k c a = .ok c' → P c') {l : List α} {c c' : γ} (hc : P c)
    (h : l.foldlM k c = .ok c') : P c' := by
  induction l generalizing c with
  | nil =>
    cases h
    exact hc
  | cons a l ih =>
    rw [List.foldlM_cons] at h
    obtain ⟨d, hd, hrest⟩ := bind_eq_ok.mp h
    exact ih (hk c a d hc hd) hrest

/-- The computation fails only with errors in `P`. -/
def FailsWith (P : ε → Prop) (x : Except ε α) : Prop := ∀ e, x = .error e → P e

namespace FailsWith

variable {P Q : ε → Prop}

theorem mono (h : ∀ e, P e → Q e) (hx : FailsWith P x) : FailsWith Q x := fun e he => h e (hx e he)

theorem ok (a : α) : FailsWith P (.ok a) := fun _ h => nomatch h

theorem error (h : P e) : FailsWith P (.error e : Except ε α) := fun _ he => Except.error.inj he ▸ h

theorem bind (hx : FailsWith P x) (hf : ∀ a, x = .ok a → FailsWith P (f a)) : FailsWith P (x >>= f) := fun e h => by
  rcases bind_eq_error.mp h with hxe | ⟨a, ha, hfa⟩
  · exact hx e hxe
  · exact hf a ha e hfa

theorem map (hx : FailsWith P x) : FailsWith P (x.map g) := fun e h => hx e (map_eq_error.mp h)

theorem mapM (hf : ∀ a, FailsWith P (f a)) (l : List α) : FailsWith P (l.mapM f) := by
  induction l with
  | nil => exact ok []
  | cons a l ih =>
    rw [List.mapM_cons]
    exact bind (hf a) fun b _ => bind ih fun bs _ => ok (b :: bs)

end FailsWith

end OmniPaxosBench.Lib
