import Mathlib.Data.List.Basic

/-! # Logs of one sequence

A log is a list whose entries stand at their slots. Logs that have the same entry wherever both have one
are prefixes of one of them (`exists_commonLog`). -/

namespace OmniPaxosBench.Lib

variable {α : Type*} {slot : α → ℕ} {l l' : List α}

/-- The entries stand at their slots. -/
def InOrder (slot : α → ℕ) (l : List α) : Prop := l.map slot = List.range l.length

/-- Entries for one slot are equal. -/
def AgreeOn (slot : α → ℕ) (l l' : List α) : Prop := ∀ a ∈ l, ∀ b ∈ l', slot a = slot b → a = b

theorem InOrder.slot_getElem (h : InOrder slot l) {k : ℕ} (hk : k < l.length) : slot l[k] = k := by
  have hmap : (l.map slot)[k]? = (List.range l.length)[k]? := congrArg (fun xs => xs[k]?) h
  rw [List.getElem?_map, List.getElem?_eq_getElem hk, List.getElem?_range hk] at hmap
  exact Option.some.inj hmap

/-- The shorter one of two logs that agree is a prefix of the other. -/
theorem InOrder.prefix_of_agree (h : InOrder slot l) (h' : InOrder slot l') (hagree : AgreeOn slot l l')
    (hle : l.length ≤ l'.length) : l <+: l' := by
  rw [List.prefix_iff_eq_take]
  refine List.ext_getElem (by rw [List.length_take, Nat.min_eq_left hle]) fun k hk hk' => ?_
  rw [List.getElem_take]
  refine hagree _ (List.getElem_mem hk) _ (List.getElem_mem _) ?_
  rw [h.slot_getElem hk, h'.slot_getElem]

theorem inOrder_nil : InOrder slot [] := rfl

/-- **The common log**: logs that agree with each other are prefixes of one log, which has no entries
but theirs. -/
theorem exists_commonLog (ls : List (List α)) (horder : ∀ l ∈ ls, InOrder slot l)
    (hagree : ∀ l ∈ ls, ∀ l' ∈ ls, AgreeOn slot l l') :
    ∃ log, InOrder slot log ∧ (log = [] ∨ log ∈ ls) ∧ ∀ l ∈ ls, l <+: log := by
  induction ls with
  | nil => exact ⟨[], inOrder_nil, Or.inl rfl, fun l hl => absurd hl List.not_mem_nil⟩
  | cons l ls ih =>
    obtain ⟨log, hlog, hsource, hall⟩ := ih (fun m hm => horder m (List.mem_cons_of_mem _ hm))
      fun m hm m' hm' => hagree m (List.mem_cons_of_mem _ hm) m' (List.mem_cons_of_mem _ hm')
    have hl := horder l List.mem_cons_self
    rcases Nat.le_total l.length log.length with hle | hle
    · refine ⟨log, hlog, hsource.imp_right (List.mem_cons_of_mem _), fun m hm => ?_⟩
      rcases List.mem_cons.mp hm with rfl | hm
      · rcases hsource with rfl | hmem
        · exact (List.eq_nil_of_length_eq_zero (Nat.le_zero.mp hle)) ▸ List.prefix_refl _
        · exact hl.prefix_of_agree hlog
            (hagree m List.mem_cons_self log (List.mem_cons_of_mem _ hmem)) hle
      · exact hall m hm
    · have hnext : log <+: l := by
        rcases hsource with rfl | hmem
        · exact List.nil_prefix
        · exact hlog.prefix_of_agree hl
            (hagree log (List.mem_cons_of_mem _ hmem) l List.mem_cons_self) hle
      refine ⟨l, hl, Or.inr List.mem_cons_self, fun m hm => ?_⟩
      rcases List.mem_cons.mp hm with rfl | hm
      · exact List.prefix_refl _
      · exact (hall m hm).trans hnext

end OmniPaxosBench.Lib
