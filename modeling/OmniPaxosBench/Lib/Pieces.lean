import Mathlib.Data.List.Sort
import Mathlib.Data.List.Dedup

/-! # Collecting pieces

A whole is asked for in pieces. Every piece has an index, and is asked for once or more often; pieces
arrive in any order. `Collecting` relates the indices asked for, those still pending and the pieces
received: a piece is received once, and an index is pending until its piece has been received. When
nothing is pending the pieces, sorted by a key that tells the indices apart, are one for each index
asked for, whatever the order they arrived in (`Collecting.sorted`).

The first part is about traversals of a list by a function that can fail. -/

namespace OmniPaxosBench.Lib

universe u v

section Traverse

variable {α : Type u} {β : Type u} {f : α → Option β} {l : List α} {out : List β}

/-- A traversal that does not fail yields one result for each element. -/
theorem forall₂_of_mapM (h : l.mapM f = some out) : List.Forall₂ (fun a b => f a = some b) l out := by
  induction l generalizing out with
  | nil =>
    rw [List.mapM_nil] at h
    cases h
    exact .nil
  | cons a l ih =>
    rw [List.mapM_cons] at h
    obtain ⟨b, hb, hrest⟩ := Option.bind_eq_some_iff.mp h
    obtain ⟨bs, hbs, heq⟩ := Option.bind_eq_some_iff.mp hrest
    cases heq
    exact .cons hb (ih hbs)

theorem mem_of_mapM (h : l.mapM f = some out) {b : β} (hb : b ∈ out) : ∃ a ∈ l, f a = some b := by
  have hall := forall₂_of_mapM h
  clear h
  induction hall with
  | nil => cases hb
  | cons hab _ ih =>
    rcases List.mem_cons.mp hb with rfl | hb
    · exact ⟨_, List.mem_cons_self, hab⟩
    · obtain ⟨a, ha, hfa⟩ := ih hb
      exact ⟨a, List.mem_cons_of_mem _ ha, hfa⟩

/-- A traversal that does not fail is a map. -/
theorem mapM_eq_some {τ : Type v} {f : α → Option τ} {g : α → τ} (h : ∀ x ∈ l, f x = some (g x)) :
    l.mapM f = some (l.map g) := by
  induction l with
  | nil => rfl
  | cons x l ih =>
    rw [List.mapM_cons, h x List.mem_cons_self, ih fun y hy => h y (List.mem_cons_of_mem _ hy)]
    rfl

end Traverse

/-- Of the indices `asked` those in `pending` have not been received. -/
structure Collecting {ι : Type u} {π : Type v} [DecidableEq ι] (index : π → ι) (asked pending : List ι)
    (received : List π) : Prop where
  pending : ∀ i, i ∈ pending ↔ i ∈ asked ∧ i ∉ received.map index
  nodup : (received.map index).Nodup
  asked : ∀ p ∈ received, index p ∈ asked

namespace Collecting

variable {ι : Type u} {π : Type v} [DecidableEq ι] {index : π → ι} {asked pending : List ι}
  {received : List π}

/-- Nothing has been received. -/
theorem start (asked : List ι) : Collecting index asked asked ([] : List π) := by
  refine ⟨fun i => ?_, List.nodup_nil, fun p hp => by cases hp⟩
  rw [List.map_nil]
  exact ⟨fun hi => ⟨hi, List.not_mem_nil⟩, And.left⟩

/-- Only which indices were asked for matters. -/
theorem congr (h : Collecting index asked pending received) {asked' : List ι}
    (hsame : ∀ i, i ∈ asked' ↔ i ∈ asked) : Collecting index asked' pending received := by
  refine ⟨fun i => ?_, h.nodup, fun p hp => (hsame _).mpr (h.asked p hp)⟩
  rw [hsame]
  exact h.pending i

/-- A piece that was not received before arrives. -/
theorem receive (h : Collecting index asked pending received) {p : π} (hasked : index p ∈ asked)
    (hnew : index p ∉ received.map index) :
    Collecting index asked (pending.filter (· ≠ index p)) (received ++ [p]) := by
  refine ⟨fun i => ?_, ?_, ?_⟩
  · rw [List.mem_filter, h.pending, List.map_append, List.map_singleton, List.mem_append,
      List.mem_singleton, decide_eq_true_iff]
    tauto
  · rw [List.map_append, List.map_singleton]
    refine List.nodup_append.mpr ⟨h.nodup, List.nodup_singleton _, ?_⟩
    intro i hi j hj hij
    rw [List.mem_singleton] at hj
    exact hnew (hj ▸ hij ▸ hi)
  · intro q hq
    rcases List.mem_append.mp hq with hq | hq
    · exact h.asked q hq
    · rw [List.mem_singleton.mp hq]; exact hasked

/-- When nothing is pending, every index asked for has been received. -/
theorem mem_received (h : Collecting index asked [] received) {i : ι} (hi : i ∈ asked) :
    i ∈ received.map index := by
  by_contra hnot
  have hmem := (h.pending i).mpr ⟨hi, hnot⟩
  cases hmem

/-- The indices received are the different ones asked for. -/
theorem perm (h : Collecting index asked [] received) : (received.map index).Perm asked.dedup := by
  refine (List.perm_ext_iff_of_nodup h.nodup asked.nodup_dedup).mpr fun i => ?_
  rw [List.mem_dedup]
  constructor
  · intro hi
    obtain ⟨p, hp, rfl⟩ := List.mem_map.mp hi
    exact h.asked p hp
  · exact h.mem_received

/-- **Reassembly.** When nothing is pending, the pieces sorted by key have the different indices asked
for, sorted by key. -/
theorem sorted (h : Collecting index asked [] received) (key : ι → ℕ)
    (hkey : ∀ i ∈ asked, ∀ j ∈ asked, key i = key j → i = j) :
    (received.insertionSort fun p q => key (index p) ≤ key (index q)).map index =
      asked.dedup.insertionSort fun i j => key i ≤ key j := by
  rw [List.map_insertionSort _ (fun i j => key i ≤ key j) index received fun _ _ _ _ => Iff.rfl]
  have htotal : Std.Total fun i j : ι => key i ≤ key j := ⟨fun i j => le_total _ _⟩
  have htrans : IsTrans ι fun i j => key i ≤ key j := ⟨fun i j k => le_trans⟩
  refine List.Perm.eq_of_pairwise ?_ (List.pairwise_insertionSort _ _)
    (List.pairwise_insertionSort _ _) ?_
  · intro i j hi hj hij hji
    rw [List.mem_insertionSort] at hi hj
    have hi' := List.mem_dedup.mp ((h.perm.mem_iff).mp hi)
    exact hkey i hi' j (List.mem_dedup.mp hj) (le_antisymm hij hji)
  · exact ((List.perm_insertionSort _ _).trans h.perm).trans (List.perm_insertionSort _ _).symm

end Collecting

end OmniPaxosBench.Lib
