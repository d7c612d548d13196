import Mathlib.Data.Nat.ModEq
import Mathlib.Order.Bounds.Basic
import Mathlib.Tactic.Ring
import OmniPaxosBench.Lib.Checked
import OmniPaxosBench.Lib.Sweep
import OmniPaxosBench.MultiPaxos.Messages

/-! # Multi-Paxos: rounds and the log buffer

`ClassicRoundRobin` assigns the rounds to the leaders `1, …, n` in turn, `n` owning the multiples of
`n`. `BufferMap` is the log of a replica: a vector indexed by slot that is padded on demand. `maxBy`
is the iterator method of that name: of several largest elements it returns the last.

The `checked` versions of the functions make their panics explicit, on overflow and on an index out of
range, and `eq_put_of_checkedPut` says that a `put` either panics or does what `put` does;
`classicRoundRobin_rounds` and `bufferMap_finite_map` say what they compute when there is none. -/

namespace OmniPaxosBench.MultiPaxos

open OmniPaxosBench.Lib

/-- `max_by` with the keys compared: the last of the largest elements. -/
def maxBy {α : Type} (key : α → ℕ) : List α → Option α
  | [] => none
  | a :: l => some (l.foldl (fun x y => if key x ≤ key y then y else x) a)

theorem foldl_maxBy_spec {α : Type} (key : α → ℕ) : ∀ (l : List α) (a : α),
    l.foldl (fun x y => if key x ≤ key y then y else x) a ∈ a :: l ∧
      ∀ b ∈ a :: l, key b ≤ key (l.foldl (fun x y => if key x ≤ key y then y else x) a)
  | [], a => by simp
  | c :: l, a => by
    obtain ⟨h1, h2⟩ := foldl_maxBy_spec key l (if key a ≤ key c then c else a)
    rw [List.foldl_cons]
    have hac : key a ≤ key (if key a ≤ key c then c else a) ∧
        key c ≤ key (if key a ≤ key c then c else a) := by
      split_ifs with h
      · exact ⟨h, le_rfl⟩
      · exact ⟨le_rfl, by omega⟩
    have htop := h2 _ (List.mem_cons_self ..)
    refine ⟨?_, fun b hb => ?_⟩
    · rcases List.mem_cons.mp h1 with h | h
      · rw [h]; split_ifs <;> simp
      · simp [h]
    · rcases List.mem_cons.mp hb with rfl | hb
      · exact hac.1.trans htop
      · rcases List.mem_cons.mp hb with rfl | hb
        · exact hac.2.trans htop
        · exact h2 b (List.mem_cons_of_mem _ hb)

/-- **The result of `maxBy`** is an element with the largest key. -/
theorem maxBy_eq_some {α : Type} {key : α → ℕ} {l : List α} {a : α} (h : maxBy key l = some a) :
    a ∈ l ∧ ∀ b ∈ l, key b ≤ key a := by
  cases l with
  | nil => cases h
  | cons c l => cases h; exact foldl_maxBy_spec key l c

theorem maxBy_eq_none {α : Type} {key : α → ℕ} {l : List α} : maxBy key l = none ↔ l = [] := by
  cases l <;> simp [maxBy]

/-! ### The round system -/

/-- Rounds are assigned to the leaders in turn. -/
structure ClassicRoundRobin where
  n : ℕ
  deriving DecidableEq, Repr

namespace ClassicRoundRobin

variable (r : ClassicRoundRobin)

/-- The leader that owns a round. -/
def leader (round : ℕ) : ℕ :=
  let rest := round % r.n
  if rest < 1 then r.n else rest

/-- The next round above `round` that `leaderIndex` owns. -/
def nextClassicRound (leaderIndex : ℕ) (round : ℕ) : ℕ :=
  let smallestMultipleOfN := r.n * (round / r.n)
  let offset := leaderIndex % r.n
  if smallestMultipleOfN + offset > round then smallestMultipleOfN + offset
  else smallestMultipleOfN + r.n + offset

variable {r}

theorem lt_nextClassicRound (hn : 1 ≤ r.n) (leaderIndex : ℕ) (round : ℕ) :
    round < r.nextClassicRound leaderIndex round := by
  unfold nextClassicRound
  have hmod := Nat.div_add_mod round r.n
  have hlt := Nat.mod_lt round hn
  dsimp only
  generalize r.n * (round / r.n) = q at hmod ⊢
  split_ifs with h
  · exact h
  · omega

/-- The next round of a leader is owned by it. -/
theorem leader_nextClassicRound {i : ℕ} (h1 : 1 ≤ i) (hi : i ≤ r.n) (round : ℕ) :
    r.leader (r.nextClassicRound i round) = i := by
  have hmod : r.nextClassicRound i round % r.n = i % r.n := by
    unfold nextClassicRound
    dsimp only
    split_ifs
    · rw [Nat.mul_add_mod, Nat.mod_mod]
    · rw [Nat.add_assoc, Nat.mul_add_mod, Nat.add_mod_left, Nat.mod_mod]
  unfold leader
  rw [hmod]
  rcases Nat.lt_or_ge i r.n with h | h
  · have hpos : ¬ i < 1 := by omega
    simp only [Nat.mod_eq_of_lt h, if_neg hpos]
  · have : i = r.n := by omega
    subst this; simp

theorem leader_self : r.leader r.n = r.n := by
  unfold leader; simp

/-- `leader` with its division checked. -/
def checkedLeader (r : ClassicRoundRobin) (round : ℕ) : Option ℕ := do
  let rest ← Checked.rem round r.n
  if rest < 1 then some r.n else some rest

/-- `next_classic_round` with all its arithmetic on `u64`s checked. -/
def checkedNextClassicRound (r : ClassicRoundRobin) (leaderIndex : ℕ) (round : ℕ) : Option ℕ := do
  let quotient ← Checked.div round r.n
  let smallestMultipleOfN ← Checked.mul 64 r.n quotient
  let offset ← Checked.rem leaderIndex r.n
  if (← Checked.add 64 smallestMultipleOfN offset) > round then
    Checked.add 64 smallestMultipleOfN offset
  else do
    let next ← Checked.add 64 smallestMultipleOfN r.n
    Checked.add 64 next offset

theorem checkedLeader_eq (hn : 1 ≤ r.n) (round : ℕ) : r.checkedLeader round = some (r.leader round) := by
  unfold checkedLeader leader
  rw [Checked.rem_eq hn, Option.bind_eq_bind, Option.bind_some]
  dsimp only
  split_ifs <;> rfl

/-- No operation overflows if `n` rounds more fit in a `u64`. -/
theorem checkedNextClassicRound_eq {round : ℕ} (hn : 1 ≤ r.n) (hround : round + r.n < 2 ^ 64) (i : ℕ) :
    r.checkedNextClassicRound i round = some (r.nextClassicRound i round) := by
  have hmul : r.n * (round / r.n) ≤ round := Nat.mul_div_le round r.n
  have hoffset : i % r.n < r.n := Nat.mod_lt i hn
  unfold checkedNextClassicRound nextClassicRound
  simp only [Option.bind_eq_bind]
  rw [Checked.div_eq hn, Option.bind_some, Checked.mul_eq (hmul.trans_lt (by omega)), Option.bind_some,
    Checked.rem_eq hn, Option.bind_some]
  generalize r.n * (round / r.n) = multiple at hmul ⊢
  rw [Checked.add_eq (by omega), Option.bind_some]
  split_ifs with h
  · rfl
  · rw [Checked.add_eq (by omega), Option.bind_some, Checked.add_eq (by omega)]

theorem nextClassicRound_le (hn : 1 ≤ r.n) (i round : ℕ) : r.nextClassicRound i round ≤ round + r.n := by
  have hmul : r.n * (round / r.n) ≤ round := Nat.mul_div_le round r.n
  have hoffset : i % r.n < r.n := Nat.mod_lt i hn
  unfold nextClassicRound
  dsimp only
  generalize r.n * (round / r.n) = multiple at hmul ⊢
  split_ifs <;> omega

theorem leader_mem (hn : 1 ≤ r.n) (round : ℕ) : 1 ≤ r.leader round ∧ r.leader round ≤ r.n := by
  have hlt := Nat.mod_lt round hn
  unfold leader
  dsimp only
  split_ifs <;> omega

/-- **Owners are remainders.** -/
theorem leader_eq_iff {i : ℕ} (h1 : 1 ≤ i) (hi : i ≤ r.n) {round : ℕ} :
    r.leader round = i ↔ round ≡ i [MOD r.n] := by
  have hlt := Nat.mod_lt round (h1.trans hi)
  unfold leader Nat.ModEq
  dsimp only
  rcases hi.eq_or_lt with rfl | hi
  · rw [Nat.mod_self]
    split_ifs <;> omega
  · rw [Nat.mod_eq_of_lt hi]
    split_ifs <;> omega

/-- Two rounds of one leader are at least `n` apart. -/
theorem add_le_of_leader_eq {q q' : ℕ} (hn : 1 ≤ r.n) (h : r.leader q = r.leader q') (hlt : q < q') :
    q + r.n ≤ q' := by
  obtain ⟨h1, hi⟩ := leader_mem hn q'
  have hq := (leader_eq_iff h1 hi).mp h
  have hq' := (leader_eq_iff h1 hi).mp rfl
  exact (hq.trans hq'.symm).add_le_of_lt hlt

theorem nextClassicRound_isLeast {i : ℕ} (h1 : 1 ≤ i) (hi : i ≤ r.n) (round : ℕ) :
    IsLeast {q | round < q ∧ r.leader q = i} (r.nextClassicRound i round) := by
  have hn : 1 ≤ r.n := h1.trans hi
  refine ⟨⟨lt_nextClassicRound hn i round, leader_nextClassicRound h1 hi round⟩, ?_⟩
  rintro q ⟨hround, hq⟩
  by_contra hlt
  have hsame : r.leader q = r.leader (r.nextClassicRound i round) := by
    rw [hq, leader_nextClassicRound h1 hi]
  have hnext := nextClassicRound_le hn i round
  have hgap := add_le_of_leader_eq hn hsame (not_le.mp hlt)
  omega

/-- **A leader owns one of any `n` consecutive rounds.** -/
theorem existsUnique_leader {i : ℕ} (h1 : 1 ≤ i) (hi : i ≤ r.n) (start : ℕ) :
    ∃! q, start ≤ q ∧ q < start + r.n ∧ r.leader q = i := by
  have hn : 1 ≤ r.n := h1.trans hi
  have hex : ∃ q, start ≤ q ∧ q < start + r.n ∧ r.leader q = i := by
    by_cases hstart : r.leader start = i
    · exact ⟨start, le_rfl, by omega, hstart⟩
    · -- the next round of `i` comes before the next one of the owner of `start`
      obtain ⟨⟨hlt, hq⟩, -⟩ := nextClassicRound_isLeast h1 hi start
      have hle := nextClassicRound_le hn i start
      refine ⟨_, hlt.le, lt_of_le_of_ne hle fun heq => hstart ?_, hq⟩
      rw [heq, leader_eq_iff h1 hi] at hq
      exact (leader_eq_iff h1 hi).mpr ((Nat.add_modEq_right).symm.trans hq)
  obtain ⟨q, hle, hlt, hq⟩ := hex
  refine ⟨q, ⟨hle, hlt, hq⟩, fun q' ⟨hle', hlt', hq'⟩ => ?_⟩
  rcases Nat.lt_trichotomy q' q with h | h | h
  · have hgap := add_le_of_leader_eq hn (hq'.trans hq.symm) h
    omega
  · exact h
  · have hgap := add_le_of_leader_eq hn (hq.trans hq'.symm) h
    omega

/-- **The round system**: every round has an owner in `1, …, n`, `next_classic_round` computes without
overflow the least later round of a leader, no two leaders are given the same round, and each leader owns
exactly one of any `n` consecutive rounds. -/
theorem classicRoundRobin_rounds {n l round : ℕ} (hl : 1 ≤ l) (hln : l ≤ n) (hround : round + n < 2 ^ 64) :
    (∃ owner, (⟨n⟩ : ClassicRoundRobin).checkedLeader round = some owner ∧ 1 ≤ owner ∧ owner ≤ n) ∧
    (∃ next, (⟨n⟩ : ClassicRoundRobin).checkedNextClassicRound l round = some next ∧
      IsLeast {q | round < q ∧ (⟨n⟩ : ClassicRoundRobin).checkedLeader q = some l} next) ∧
    (∀ l' round', 1 ≤ l' → l' ≤ n → l' ≠ l → round' + n < 2 ^ 64 →
      (⟨n⟩ : ClassicRoundRobin).checkedNextClassicRound l' round' ≠
        (⟨n⟩ : ClassicRoundRobin).checkedNextClassicRound l round) ∧
    ∀ start, ∃! q, start ≤ q ∧ q < start + n ∧ (⟨n⟩ : ClassicRoundRobin).checkedLeader q = some l := by
  have hn : 1 ≤ (⟨n⟩ : ClassicRoundRobin).n := hl.trans hln
  simp only [checkedLeader_eq hn, checkedNextClassicRound_eq hn hround, Option.some_inj]
  refine ⟨⟨_, rfl, leader_mem hn round⟩, ⟨_, rfl, nextClassicRound_isLeast hl hln round⟩,
    fun l' round' hl' hln' hne hround' heq => hne ?_, existsUnique_leader hl hln⟩
  -- a round has one owner
  rw [checkedNextClassicRound_eq hn hround', Option.some_inj] at heq
  rw [← leader_nextClassicRound (r := ⟨n⟩) hl' hln' round', heq, leader_nextClassicRound hl hln]

/-- Of three leaders the last one owns the multiples of three. -/
theorem classicRoundRobin_rounds_three :
    (⟨3⟩ : ClassicRoundRobin).checkedNextClassicRound 3 6 = some 9 ∧
      IsLeast {q | 6 < q ∧ (⟨3⟩ : ClassicRoundRobin).checkedLeader q = some 3} 9 := by
  have hround : 6 + 3 < 2 ^ 64 := by decide
  obtain ⟨-, ⟨next, hnext, hleast⟩, -⟩ :=
    classicRoundRobin_rounds (l := 3) (by decide) (by decide) hround
  have hvalue : (⟨3⟩ : ClassicRoundRobin).checkedNextClassicRound 3 6 = some 9 := by decide
  obtain rfl := Option.some.inj (hnext.symm.trans hvalue)
  exact ⟨hvalue, hleast⟩

end ClassicRoundRobin

/-! ### The log buffer -/

/-- A vector of optional values indexed by slot. -/
structure BufferMap where
  growSize : ℕ
  buffer : List (Option CommandBatchOrNoop)
  watermark : ℕ
  largestKey : Option ℕ
  deriving DecidableEq, Repr

namespace BufferMap

/-- `BufferMap::with`. -/
def new (growSize : ℕ) : BufferMap := ⟨growSize, [], 0, none⟩

variable (b : BufferMap)

def normalize (key : ℕ) : Option ℕ := if key ≥ b.watermark then some (key - b.watermark) else none

/-- Push `none` until the buffer has `len` entries. -/
def pad (len : ℕ) : BufferMap :=
  { b with buffer := b.buffer ++ List.replicate (len - b.buffer.length) none }

def get (key : ℕ) : Option CommandBatchOrNoop :=
  match b.normalize key with
  | none => none
  | some normalized => if normalized ≥ b.buffer.length then none else b.buffer[normalized]?.join

def put (key : ℕ) (value : CommandBatchOrNoop) : BufferMap :=
  let b := { b with largestKey := some (max (b.largestKey.getD 0) key) }
  match b.normalize key with
  | none => b
  | some normalized =>
    if normalized < b.buffer.length then { b with buffer := b.buffer.set normalized (some value) }
    else
      let b := b.pad (normalized + 1 + b.growSize)
      { b with buffer := b.buffer.set normalized (some value) }

variable {b}

theorem get_of_le {key : ℕ} (h : b.watermark ≤ key) :
    b.get key = b.buffer[key - b.watermark]?.join := by
  unfold get normalize
  rw [if_pos h]
  dsimp only
  split_ifs with hlen
  · rw [List.getElem?_eq_none hlen]
    rfl
  · rfl

theorem get_of_lt {key : ℕ} (h : key < b.watermark) : b.get key = none := by
  unfold get normalize
  rw [if_neg (by omega)]

@[simp] theorem get_new (growSize key : ℕ) : (new growSize).get key = none := by
  rw [get_of_le (Nat.zero_le _)]
  rfl

/-- Padding adds empty entries only. -/
theorem getElem?_pad (len k : ℕ) : (b.pad len).buffer[k]?.join = b.buffer[k]?.join := by
  simp only [pad, List.getElem?_append, List.getElem?_replicate]
  split_ifs with hlt hlen
  · rfl
  · rw [List.getElem?_eq_none (by omega)]
    rfl
  · rw [List.getElem?_eq_none (by omega)]

theorem length_pad {len : ℕ} (h : b.buffer.length ≤ len) : (b.pad len).buffer.length = len := by
  simp only [pad, List.length_append, List.length_replicate]
  omega

/-- `put` changes the entries and the largest key only. -/
theorem put_frame (key : ℕ) (value : CommandBatchOrNoop) : ∃ buffer : List (Option CommandBatchOrNoop),
    b.put key value = { b with buffer := buffer, largestKey := some (max (b.largestKey.getD 0) key) } := by
  unfold put
  dsimp only
  split
  · exact ⟨b.buffer, rfl⟩
  · split_ifs
    · exact ⟨_, rfl⟩
    · exact ⟨_, rfl⟩

theorem put_watermark (key : ℕ) (value : CommandBatchOrNoop) :
    (b.put key value).watermark = b.watermark := by
  obtain ⟨buffer, hput⟩ := b.put_frame key value
  rw [hput]

theorem put_growSize (key : ℕ) (value : CommandBatchOrNoop) :
    (b.put key value).growSize = b.growSize := by
  obtain ⟨buffer, hput⟩ := b.put_frame key value
  rw [hput]

/-- Below the watermark nothing is stored. -/
theorem put_of_lt {key : ℕ} (h : key < b.watermark) (value : CommandBatchOrNoop) :
    b.put key value = { b with largestKey := some (max (b.largestKey.getD 0) key) } := by
  unfold put normalize
  dsimp only
  rw [if_neg (by omega)]

/-- **What a buffer holds after `put`.** -/
theorem get_put_of_le {key : ℕ} (h : b.watermark ≤ key) (value : CommandBatchOrNoop) (k : ℕ) :
    (b.put key value).get k = if k = key then some value else b.get k := by
  -- the buffer is padded if needed, and then one entry of it is set
  obtain ⟨buffer, hput, hlen, hsame⟩ : ∃ buffer : List (Option CommandBatchOrNoop),
      b.put key value = { b with
        largestKey := some (max (b.largestKey.getD 0) key)
        buffer := buffer.set (key - b.watermark) (some value) } ∧
      key - b.watermark < buffer.length ∧ ∀ i : ℕ, buffer[i]?.join = b.buffer[i]?.join := by
    unfold put normalize
    dsimp only
    rw [if_pos h]
    dsimp only
    split_ifs with hlt
    · exact ⟨b.buffer, rfl, hlt, fun _ => rfl⟩
    · refine ⟨(b.pad (key - b.watermark + 1 + b.growSize)).buffer, rfl, ?_, fun i => getElem?_pad _ i⟩
      rw [length_pad (by omega)]
      omega
  have hw := put_watermark (b := b) key value
  have hbuf : (b.put key value).buffer = buffer.set (key - b.watermark) (some value) := by rw [hput]
  rcases Nat.lt_or_ge k b.watermark with hk | hk
  · rw [if_neg (by omega), get_of_lt hk, get_of_lt (hw ▸ hk)]
  · rw [get_of_le hk, get_of_le (hw ▸ hk), hw, hbuf, List.getElem?_set]
    by_cases hkey : k = key
    · rw [if_pos (by rw [hkey]), if_pos hlen, if_pos hkey]
      rfl
    · rw [if_neg (by omega), if_neg hkey, hsame]

/-- What is in a buffer after `put` was there before or is the value put. -/
theorem get_put {key k : ℕ} {v w : CommandBatchOrNoop} (h : (b.put key v).get k = some w) :
    (k = key ∧ w = v) ∨ b.get k = some w := by
  rcases Nat.lt_or_ge key b.watermark with hw | hw
  · rw [put_of_lt hw] at h
    exact Or.inr h
  · rw [get_put_of_le hw] at h
    split_ifs at h with hk
    · exact Or.inl ⟨hk, (Option.some.inj h).symm⟩
    · exact Or.inr h

/-- `get` with its `expect`: the outer `none` is a panic. -/
def checkedGet (b : BufferMap) (key : ℕ) : Option (Option CommandBatchOrNoop) :=
  match b.normalize key with
  | none => some none
  | some normalized => if normalized ≥ b.buffer.length then some none else b.buffer[normalized]?

/-- Assign to an index, which panics outside of the buffer. -/
def assign (b : BufferMap) (index : ℕ) (value : CommandBatchOrNoop) : Option BufferMap :=
  if index < b.buffer.length then some { b with buffer := b.buffer.set index (some value) } else none

/-- The loop of `pad`. -/
@[semireducible] def padLoop (b : BufferMap) (len : ℕ) : BufferMap :=
  if b.buffer.length < len then padLoop { b with buffer := b.buffer ++ [none] } len else b
termination_by len - b.buffer.length
decreasing_by
  rw [List.length_append, List.length_singleton]
  omega

/-- `put` with the new length computed on a `usize` and the indices checked. -/
def checkedPut (b : BufferMap) (key : ℕ) (value : CommandBatchOrNoop) : Option BufferMap :=
  let b := { b with largestKey := some (max (b.largestKey.getD 0) key) }
  match b.normalize key with
  | none => some b
  | some normalized =>
    if normalized < b.buffer.length then b.assign normalized value
    else do
      let len ← Checked.add 64 normalized 1
      let len ← Checked.add 64 len b.growSize
      (b.padLoop len).assign normalized value

theorem padLoop_eq (b : BufferMap) (len : ℕ) : b.padLoop len = b.pad len := by
  fun_induction padLoop b len with
  | case1 b hlt ih =>
    rw [ih, pad, pad, List.append_assoc, List.length_append, List.length_singleton]
    have hlen : len - b.buffer.length = len - (b.buffer.length + 1) + 1 := by omega
    rw [hlen, List.replicate_succ, List.singleton_append]
  | case2 b hge =>
    rw [pad, Nat.sub_eq_zero_of_le (not_lt.mp hge), List.replicate_zero, List.append_nil]

theorem checkedGet_eq (key : ℕ) : b.checkedGet key = some (b.get key) := by
  unfold checkedGet get
  cases b.normalize key with
  | none => rfl
  | some normalized =>
    dsimp only
    split_ifs with hlen
    · rfl
    · rw [List.getElem?_eq_getElem (not_le.mp hlen)]
      rfl

theorem checkedPut_eq {key : ℕ} (hfit : key + 1 + b.growSize < 2 ^ 64) (value : CommandBatchOrNoop) :
    b.checkedPut key value = some (b.put key value) := by
  unfold checkedPut put normalize
  dsimp only
  by_cases hw : key ≥ b.watermark
  · simp only [if_pos hw]
    split_ifs with hlt
    · exact if_pos hlt
    · rw [Checked.add_eq (by omega), Option.bind_eq_bind, Option.bind_some, Checked.add_eq (by omega),
        Option.bind_some, padLoop_eq]
      have hlen : key - b.watermark < (b.pad (key - b.watermark + 1 + b.growSize)).buffer.length := by
        rw [length_pad (by omega)]
        omega
      exact if_pos hlen
  · simp only [if_neg hw]

theorem eq_of_assign {c : BufferMap} {index : ℕ} {value : CommandBatchOrNoop}
    (h : b.assign index value = some c) : c = { b with buffer := b.buffer.set index (some value) } := by
  unfold assign at h
  split_ifs at h with hlt
  exact (Option.some.inj h).symm

/-- **A `put` that does not panic** does what `put` does. -/
theorem eq_put_of_checkedPut {c : BufferMap} {key : ℕ} {value : CommandBatchOrNoop}
    (h : b.checkedPut key value = some c) : c = b.put key value := by
  unfold checkedPut normalize at h
  unfold put normalize
  dsimp only at h ⊢
  by_cases hw : key ≥ b.watermark
  · simp only [if_pos hw] at h ⊢
    split_ifs at h ⊢ with hlt
    · exact eq_of_assign h
    · obtain ⟨len, hlen, h⟩ := Option.bind_eq_some_iff.mp h
      obtain ⟨len', hlen', h⟩ := Option.bind_eq_some_iff.mp h
      obtain rfl := Checked.eq_of_add hlen
      obtain rfl := Checked.eq_of_add hlen'
      rw [padLoop_eq] at h
      exact eq_of_assign h
  · simp only [if_neg hw] at h ⊢
    exact (Option.some.inj h).symm

/-- A key that the buffer has an entry for needs no padding. -/
theorem checkedPut_of_lt {key : ℕ} (hw : b.watermark ≤ key) (h : key - b.watermark < b.buffer.length)
    (value : CommandBatchOrNoop) : b.checkedPut key value = some (b.put key value) := by
  unfold checkedPut put normalize
  dsimp only
  simp only [if_pos hw, if_pos h]
  exact if_pos h

/-- The value of the last put with the given key. -/
def lastPut (puts : List (ℕ × CommandBatchOrNoop)) (key : ℕ) : Option CommandBatchOrNoop :=
  ((puts.filter fun p => p.1 = key).getLast?).map Prod.snd

theorem lastPut_cons (p : ℕ × CommandBatchOrNoop) (puts : List (ℕ × CommandBatchOrNoop)) (key : ℕ) :
    lastPut (p :: puts) key = (lastPut puts key).or (if key = p.1 then some p.2 else none) := by
  unfold lastPut
  by_cases hkey : p.1 = key
  · rw [List.filter_cons_of_pos (by simpa using hkey), List.getLast?_cons, if_pos hkey.symm]
    cases (puts.filter fun p => p.1 = key).getLast? <;> rfl
  · rw [List.filter_cons_of_neg (by simpa using hkey), if_neg (Ne.symm hkey), Option.or_none]

/-- Later puts override what was in the buffer. -/
theorem get_foldl_put (puts : List (ℕ × CommandBatchOrNoop)) (hw : b.watermark = 0) (key : ℕ) :
    (puts.foldl (fun b p => b.put p.1 p.2) b).get key = (lastPut puts key).or (b.get key) := by
  induction puts generalizing b with
  | nil => rfl
  | cons p puts ih =>
    rw [List.foldl_cons, ih ((put_watermark _ _).trans hw), get_put_of_le (by omega), lastPut_cons,
      Option.or_assoc]
    split_ifs <;> rfl

/-- **A buffer is a finite map**: no `put` of a sequence fails, and afterwards a key has the value of the
last `put` with it. -/
theorem bufferMap_finite_map {growSize : ℕ} {puts : List (ℕ × CommandBatchOrNoop)}
    (hfit : ∀ p ∈ puts, p.1 + 1 + growSize < 2 ^ 64) :
    ∃ b, puts.foldlM (fun b p => b.checkedPut p.1 p.2) (new growSize) = some b ∧
      ∀ key, b.checkedGet key = some (lastPut puts key) := by
  have hstep : ∀ b : BufferMap, b.growSize = growSize → ∀ p ∈ puts,
      b.checkedPut p.1 p.2 = some (b.put p.1 p.2) ∧ (b.put p.1 p.2).growSize = growSize :=
    fun b hb p hp => ⟨checkedPut_eq (hb ▸ hfit p hp) p.2, (put_growSize p.1 p.2).trans hb⟩
  have hrun := foldlM_eq_some (r := id) (f := fun b (p : ℕ × CommandBatchOrNoop) => checkedPut b p.1 p.2)
    (g := fun b p => put b p.1 p.2) (I := fun b => b.growSize = growSize) (s := new growSize) hstep rfl
  simp only [id_eq] at hrun
  refine ⟨_, hrun.1, fun key => ?_⟩
  rw [checkedGet_eq, get_foldl_put puts rfl, get_new, Option.or_none]

/-- A far key, a key before it, and the first one again. -/
theorem bufferMap_finite_map_far : ∃ b,
    [(1000, .noop), (3, .noop), (1000, .commandBatch [])].foldlM (fun b p => b.checkedPut p.1 p.2)
      (new 5) = some b ∧
    b.checkedGet 1000 = some (some (.commandBatch [])) ∧ b.checkedGet 3 = some (some .noop) ∧
    b.checkedGet 4 = some none := by
  have hfit : ∀ p ∈ [(1000, .noop), (3, .noop), (1000, CommandBatchOrNoop.commandBatch [])],
      p.1 + 1 + 5 < 2 ^ 64 := by decide
  obtain ⟨b, hb, hget⟩ := bufferMap_finite_map hfit
  exact ⟨b, hb, hget 1000, hget 3, hget 4⟩

end BufferMap

end OmniPaxosBench.MultiPaxos
