import Mathlib.Data.List.Basic

/-! # Fields of a text

Fields are joined by a separator, and a text is split into the pieces between the separators. How many
pieces the joined text has depends on the separators in the fields only (`length_splitOn_intercalate`):
it splits into as many pieces as there are fields just when no field has a separator in it, and then the
pieces are the fields. -/

namespace OmniPaxosBench.Lib

universe u

section Fields
variable {α : Type u} [BEq α] [LawfulBEq α] {a : α}

omit [LawfulBEq α] in
theorem length_splitOn (l : List α) : (l.splitOn a).length = l.count a + 1 := by
  induction l with
  | nil => rfl
  | cons x l ih =>
    rw [List.splitOn_cons_eq_if_modifyHead, List.count_cons]
    split_ifs with hx
    · rw [List.length_cons, ih]
    · rw [List.length_modifyHead, ih, Nat.add_zero]

theorem length_splitOn_intercalate {ls : List (List α)} (hls : ls ≠ []) :
    (([a].intercalate ls).splitOn a).length = ls.length + ls.flatten.count a := by
  induction ls with
  | nil => exact absurd rfl hls
  | cons l ls ih =>
    cases ls with
    | nil =>
      rw [List.intercalate_singleton, length_splitOn, List.flatten_singleton, List.length_singleton,
        Nat.add_comm]
    | cons l' ls =>
      rw [List.intercalate_cons_cons, List.append_assoc, List.singleton_append,
        List.splitOn_append_cons_self, List.length_append, ih (List.cons_ne_nil _ _), length_splitOn]
      simp only [List.flatten_cons, List.count_append, List.length_cons]
      omega

/-- **A field with a separator in it** makes for too many pieces. -/
theorem length_splitOn_intercalate_ne {ls : List (List α)} {l : List α} (hl : l ∈ ls) (ha : a ∈ l) :
    (([a].intercalate ls).splitOn a).length ≠ ls.length := by
  rw [length_splitOn_intercalate (List.ne_nil_of_mem hl)]
  have hcount : 0 < ls.flatten.count a := List.count_pos_iff.mpr (List.mem_flatten_of_mem hl ha)
  omega

end Fields

section Pattern
variable {α : Type u} [BEq α]

/-- Split at the occurrences of a text that is not empty, from the left and without overlap. `skip` is the
rest of an occurrence, `piece` what was read of the current piece. -/
def splitAtText (pattern : List α) : ℕ → List α → List α → List (List α)
  | _, piece, [] => [piece]
  | skip + 1, piece, _ :: rest => splitAtText pattern skip piece rest
  | 0, piece, x :: rest =>
    if pattern.isPrefixOf (x :: rest) then piece :: splitAtText pattern (pattern.length - 1) [] rest
    else splitAtText pattern 0 (piece ++ [x]) rest

theorem splitAtText_of_notMem [LawfulBEq α] {x : α} {pattern l : List α} (h : x ∉ l) (piece : List α) :
    splitAtText (x :: pattern) 0 piece l = [piece ++ l] := by
  induction l generalizing piece with
  | nil => rw [splitAtText, List.append_nil]
  | cons y l ih =>
    rw [List.mem_cons, not_or] at h
    have hprefix : (x :: pattern).isPrefixOf (y :: l) = false := by
      rw [List.isPrefixOf_cons_cons, beq_false_of_ne h.1, Bool.false_and]
    rw [splitAtText, hprefix, if_neg Bool.false_ne_true, ih h.2, List.append_assoc, List.singleton_append]

end Pattern

end OmniPaxosBench.Lib
