import OmniPaxosBench.OmniPaxos.PaxosComp
import OmniPaxosBench.Lib.Pieces

/-! # The segments of a sequence

`getNodeSegmentIdx` gives each of `n` nodes a segment of length `seqLen / n`. The segments are adjacent
and start at 0, but the division rounds down: the last one ends at `seqLen` only if `n` divides it
(`partition_iff`), and otherwise the entries at the end, the stop sign among them, are asked for from
nobody. -/

namespace OmniPaxosBench.OmniPaxos

open OmniPaxosBench.Lib

/-- The entry at `e` is in the segment. -/
def SegmentIndex.Has (i : SegmentIndex) (e : ℕ) : Prop := i.fromIdx ≤ e ∧ e < i.toIdx

instance (i : SegmentIndex) (e : ℕ) : Decidable (i.Has e) := inferInstanceAs (Decidable (_ ∧ _))

/-- The segments follow each other from 0 to `seqLen`, and every entry is in one of them. -/
structure IsPartition (seqLen : ℕ) (l : List SegmentIndex) : Prop where
  first : ∀ i ∈ l.head?, i.fromIdx = 0
  adjacent : ∀ k i j, l[k]? = some i → l[k + 1]? = some j → i.toIdx = j.fromIdx
  last : ∀ i ∈ l.getLast?, i.toIdx = seqLen
  once : ∀ e < seqLen, ∃! k : ℕ, ∃ i : SegmentIndex, l[k]? = some i ∧ i.Has e

namespace PaxosComp

variable {S : Type} {c c' : PaxosComp S} {configId : ℕ} {seqLen : ℕ} {fromNodes : List ℕ}
  {out : List CompOut}

/-- Each entry is asked for once. -/
def AsksOnce (seqLen : ℕ) (out : List CompOut) : Prop :=
  ∀ e < seqLen, ∃! k : ℕ, ∃ (pid : ℕ) (sr : SegmentRequest),
    out[k]? = some (.reconfiguration pid (.segmentRequest sr)) ∧ sr.idx.Has e

/-- The segment of the `k`-th node; the bound `seqLen` is never reached. -/
theorem getElem?_getNodeSegmentIdx (seqLen : ℕ) (fromNodes : List ℕ) (k : ℕ) :
    (getNodeSegmentIdx seqLen fromNodes)[k]? = fromNodes[k]?.map fun pid =>
      (pid, ⟨k * (seqLen / fromNodes.length), (k + 1) * (seqLen / fromNodes.length)⟩) := by
  unfold getNodeSegmentIdx
  rw [List.getElem?_map, List.getElem?_zipIdx, Option.map_map]
  cases hk : fromNodes[k]? with
  | none => rfl
  | some pid =>
    have hlt : k + 1 ≤ fromNodes.length := (List.getElem?_eq_some_iff.mp hk).1
    have hle : (k + 1) * (seqLen / fromNodes.length) ≤ seqLen :=
      calc (k + 1) * (seqLen / fromNodes.length)
        _ ≤ fromNodes.length * (seqLen / fromNodes.length) := Nat.mul_le_mul_right _ hlt
        _ ≤ seqLen := Nat.mul_div_le _ _
    have hadd : (0 + k) * (seqLen / fromNodes.length) + seqLen / fromNodes.length =
        (k + 1) * (seqLen / fromNodes.length) := by rw [Nat.zero_add, Nat.succ_mul]
    simp only [Option.map_some, Function.comp_def, hadd]
    rw [if_neg (by omega), Nat.zero_add]

theorem length_getNodeSegmentIdx (seqLen : ℕ) (fromNodes : List ℕ) :
    (getNodeSegmentIdx seqLen fromNodes).length = fromNodes.length := by
  unfold getNodeSegmentIdx
  rw [List.length_map, List.length_zipIdx]

/-- The `k`-th segment, without its node. -/
theorem getElem?_indices {k : ℕ} {i : SegmentIndex} :
    ((getNodeSegmentIdx seqLen fromNodes).map Prod.snd)[k]? = some i ↔ k < fromNodes.length ∧
      i = ⟨k * (seqLen / fromNodes.length), (k + 1) * (seqLen / fromNodes.length)⟩ := by
  rw [List.getElem?_map, getElem?_getNodeSegmentIdx, Option.map_map]
  constructor
  · intro h
    obtain ⟨pid, hk, rfl⟩ := Option.map_eq_some_iff.mp h
    exact ⟨(List.getElem?_eq_some_iff.mp hk).1, rfl⟩
  · rintro ⟨hk, rfl⟩
    rw [List.getElem?_eq_getElem hk]
    rfl

/-- An entry is in the segment of exactly one node, if it is below the end of the last one. -/
theorem existsUnique_segment {n d e : ℕ} (he : e < n * d) :
    ∃! k, k < n ∧ k * d ≤ e ∧ e < (k + 1) * d := by
  have hd : 0 < d := by
    by_contra hd
    have : d = 0 := by omega
    rw [this, Nat.mul_zero] at he
    omega
  have hdiv : ∀ k, k * d ≤ e ∧ e < (k + 1) * d ↔ k = e / d := by
    intro k
    rw [← Nat.le_div_iff_mul_le hd, ← Nat.div_lt_iff_lt_mul hd]
    omega
  refine ⟨e / d, ⟨(Nat.div_lt_iff_lt_mul hd).mpr he, (hdiv _).mpr rfl⟩, ?_⟩
  rintro k ⟨-, hk⟩
  exact (hdiv k).mp hk

/-- `pullSequence` asks the `k`-th node for the `k`-th segment. -/
theorem getElem?_pullSequence (h : c.pullSequence configId seqLen fromNodes = some (c', out)) (k : ℕ) :
    out[k]? = (getNodeSegmentIdx seqLen fromNodes)[k]?.map fun x =>
      .reconfiguration x.1 (.segmentRequest ⟨configId, x.2, c.pid⟩) := by
  unfold pullSequence at h
  split_ifs at h with hne
  obtain ⟨out', hmap, heq⟩ := Option.bind_eq_some_iff.mp h
  cases heq
  have hall := forall₂_of_mapM hmap
  obtain ⟨hlen, hget⟩ := List.forall₂_iff_get.mp hall
  by_cases hk : k < (getNodeSegmentIdx seqLen fromNodes).length
  · have hk' : k < out.length := hlen ▸ hk
    have hreq := hget k hk hk'
    rw [List.getElem?_eq_getElem hk, List.getElem?_eq_getElem hk', Option.map_some]
    unfold request getActorpath at hreq
    simp only [List.get_eq_getElem] at hreq
    obtain ⟨receiver, hr, heq⟩ := Option.map_eq_some_iff.mp hreq
    split_ifs at hr
    cases hr
    rw [← heq]
  · rw [List.getElem?_eq_none (by omega), List.getElem?_eq_none (by omega), Option.map_none]

/-- **The segments cover the sequence** exactly if the number of nodes divides its length. -/
theorem partition_iff (hne : fromNodes ≠ []) :
    (IsPartition seqLen ((getNodeSegmentIdx seqLen fromNodes).map Prod.snd) ∧
      ∀ (c : PaxosComp S) configId c' out,
        c.pullSequence configId seqLen fromNodes = some (c', out) → AsksOnce seqLen out) ↔
    fromNodes.length ∣ seqLen := by
  have hpos : 0 < fromNodes.length := List.length_pos_of_ne_nil hne
  have hlast : ((getNodeSegmentIdx seqLen fromNodes).map Prod.snd).getLast? =
      some ⟨(fromNodes.length - 1) * (seqLen / fromNodes.length),
        (fromNodes.length - 1 + 1) * (seqLen / fromNodes.length)⟩ := by
    rw [List.getLast?_eq_getElem?, List.length_map, length_getNodeSegmentIdx, getElem?_indices]
    exact ⟨by omega, rfl⟩
  constructor
  · rintro ⟨hpart, -⟩
    have hend := hpart.last _ hlast
    rw [Nat.sub_add_cancel hpos] at hend
    exact ⟨_, hend.symm⟩
  · intro hdvd
    have hend : fromNodes.length * (seqLen / fromNodes.length) = seqLen := Nat.mul_div_cancel' hdvd
    have honce : ∀ e < seqLen, ∃! k, k < fromNodes.length ∧ k * (seqLen / fromNodes.length) ≤ e ∧
        e < (k + 1) * (seqLen / fromNodes.length) := fun e he => existsUnique_segment (hend.symm ▸ he)
    refine ⟨⟨?_, ?_, ?_, fun e he => ?_⟩, fun c configId c' out hpull e he => ?_⟩
    · intro i hi
      rw [List.head?_eq_getElem?, Option.mem_def, getElem?_indices] at hi
      rw [hi.2, Nat.zero_mul]
    · intro k i j hi hj
      rw [(getElem?_indices.mp hi).2, (getElem?_indices.mp hj).2]
    · intro i hi
      rw [hlast] at hi
      cases hi
      rw [Nat.sub_add_cancel hpos]
      exact hend
    · refine (existsUnique_congr fun k => ?_).mpr (honce e he)
      constructor
      · rintro ⟨i, hi, hhas⟩
        obtain ⟨hk, rfl⟩ := getElem?_indices.mp hi
        exact ⟨hk, hhas⟩
      · rintro ⟨hk, hhas⟩
        exact ⟨_, getElem?_indices.mpr ⟨hk, rfl⟩, hhas⟩
    · refine (existsUnique_congr fun k => ?_).mpr (honce e he)
      rw [getElem?_pullSequence hpull, getElem?_getNodeSegmentIdx, Option.map_map]
      constructor
      · rintro ⟨pid, sr, hsr, hhas⟩
        obtain ⟨pid', hk, heq⟩ := Option.map_eq_some_iff.mp hsr
        cases heq
        exact ⟨(List.getElem?_eq_some_iff.mp hk).1, hhas⟩
      · rintro ⟨hk, hhas⟩
        rw [List.getElem?_eq_getElem hk]
        exact ⟨_, _, rfl, hhas⟩

/-- Four entries from two nodes. -/
theorem four_from_two : IsPartition 4 ((getNodeSegmentIdx 4 [1, 2]).map Prod.snd) :=
  ((partition_iff (S := List Entry) (by decide)).mpr (by decide)).1

/-- Of five entries from two nodes the last one, the stop sign, is in no segment. -/
theorem five_from_two : ¬ IsPartition 5 ((getNodeSegmentIdx 5 [1, 2]).map Prod.snd) ∧
    ∀ i ∈ (getNodeSegmentIdx 5 [1, 2]).map Prod.snd, ¬ i.Has 4 := by
  refine ⟨fun h => ?_, by decide⟩
  have hend := h.last ⟨2, 4⟩ rfl
  exact absurd hend (by decide)

end PaxosComp

end OmniPaxosBench.OmniPaxos
