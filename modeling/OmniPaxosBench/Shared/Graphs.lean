import OmniPaxosBench.Lib.Sweep
import Mathlib.Algebra.Order.Monoid.Unbundled.Basic
import Mathlib.Algebra.Order.Monoid.WithTop
import Mathlib.Data.List.Nodup
import Mathlib.Data.List.ProdSigma
import Mathlib.Tactic.Ring

/-! # Blocked all-pairs shortest paths

The adjacency matrix of a graph, the plain computation of all shortest distances on it, and the
blocked one of the actor benchmark: the matrix is broken into square blocks, in each round `k` every
block relaxes its own entries through node `k`, reading entries of other blocks as they were before
the round, and the blocks are assembled at the end. The plain version updates one matrix in place; the
blocked one mixes updated entries of its own block with old entries of the others.

Panics of the source (an index out of range, a division by zero, a failed assertion) are `none`.

* `Graph.ofMatrix`, `Block.ofMatrix`, `blocksOf`: the values that hold the entries of a table.
* `elementAt_ofMatrix`: `element_at` finds the entry in the own block or in an old one.
* `relax_local`: with a zero diagonal and non-negative entries row `k` and column `k` are stable in round
  `k`, so both versions are the simultaneous update `relaxed` (`computeRound_ofMatrix`,
  `computeFloydWarshallInner_ofMatrix`).
* `Weights`: the two properties of the entries are kept by every round. -/

namespace OmniPaxosBench.Shared.Graphs

open OmniPaxosBench.Lib

/-! ### The program -/

/-- Division of the source, which panics for divisor `0`. -/
def div (a b : ℕ) : Option ℕ := if b = 0 then none else some (a / b)

/-- Remainder of the source, which panics for divisor `0`. -/
def rem (a b : ℕ) : Option ℕ := if b = 0 then none else some (a % b)

/-- A graph as its adjacency matrix. -/
structure Graph (T : Type) where
  data : List (List T)
  deriving DecidableEq, Repr

variable {T : Type}

namespace Graph

/-- A graph from a square matrix; only the first row is compared, as in the source. -/
def ofData (data : List (List T)) : Option (Graph T) := do
  let first ← data[0]?
  if data.length = first.length then some ⟨data⟩ else none

def numNodes (g : Graph T) : ℕ := g.data.length

def get (g : Graph T) (i j : ℕ) : Option T := do
  let row ← g.data[i]?
  row[j]?

/-- Replace an entry and return the old one. -/
def set (g : Graph T) (i j : ℕ) (v : T) : Option (T × Graph T) := do
  let row ← g.data[i]?
  let old ← row[j]?
  some (old, ⟨g.data.set i (row.set j v)⟩)

end Graph

/-- A block of a graph. -/
structure Block (T : Type) where
  blockId : ℕ
  numBlocksPerDim : ℕ
  rowOffset : ℕ
  colOffset : ℕ
  blockSize : ℕ
  graph : Graph T
  deriving DecidableEq, Repr

namespace Block

/-- The constructor `with` of the source. -/
def ofData (blockId numBlocksPerDim rowOffset colOffset : ℕ) (data : List (List T)) :
    Option (Block T) := do
  let graph ← Graph.ofData data
  some ⟨blockId, numBlocksPerDim, rowOffset, colOffset, data.length, graph⟩

def get (block : Block T) (i j : ℕ) : Option T := block.graph.get i j

def set (block : Block T) (i j : ℕ) (v : T) : Option (T × Block T) := do
  let (old, graph) ← block.graph.set i j v
  some (old, { block with graph := graph })

/-- The entry of the whole matrix, from the block itself or from the one `neighbours` finds. -/
def elementAt (block : Block T) (row col : ℕ) (neighbours : ℕ → Option (Block T)) : Option T := do
  let blockRow ← div row block.blockSize
  let blockCol ← div col block.blockSize
  let destBlockId := blockRow * block.numBlocksPerDim + blockCol
  let localRow ← rem row block.blockSize
  let localCol ← rem col block.blockSize
  if destBlockId = block.blockId then block.get localRow localCol
  else do
    let other ← neighbours destBlockId
    other.get localRow localCol

end Block

namespace Graph

def getBlock (g : Graph T) (blockId blockSize : ℕ) : Option (Block T) := do
  let numBlocksPerDim ← div g.data.length blockSize
  let blockRow ← div blockId numBlocksPerDim
  let blockCol ← rem blockId numBlocksPerDim
  let globalStartRow := blockRow * blockSize
  let globalStartCol := blockCol * blockSize
  let block ← (List.range blockSize).mapM fun i =>
    (List.range blockSize).mapM fun j => g.get (globalStartRow + i) (globalStartCol + j)
  Block.ofData blockId numBlocksPerDim globalStartRow globalStartCol block

def breakIntoBlocks (g : Graph T) (blockSize : ℕ) : Option (List (List (Block T))) := do
  let left ← rem g.data.length blockSize
  if left = 0 then do
    let numBlocksPerDim ← div g.data.length blockSize
    (List.range numBlocksPerDim).mapM fun i =>
      (List.range numBlocksPerDim).mapM fun j => g.getBlock (i * numBlocksPerDim + j) blockSize
  else none

def assembleFromBlocks (blocks : List (List (Block T))) : Option (Graph T) := do
  let firstRow ← blocks[0]?
  if blocks.length = firstRow.length then do
    let first ← firstRow[0]?
    let totalSize := blocks.length * first.blockSize
    let data ← (List.range totalSize).mapM fun i =>
      (List.range totalSize).mapM fun j => do
        let blockRow ← div i first.blockSize
        let blockCol ← div j first.blockSize
        let localRow ← rem i first.blockSize
        let localCol ← rem j first.blockSize
        let row ← blocks[blockRow]?
        let block ← row[blockCol]?
        block.get localRow localCol
    ofData data
  else none

end Graph

section Numeric
variable [Add T] [LT T] [DecidableLT T]

namespace Graph

/-- The body of the three loops of `compute_floyd_warshall`. -/
def relax (k i : ℕ) (g : Graph T) (j : ℕ) : Option (Graph T) := do
  let newValue := (← g.get i k) + (← g.get k j)
  if (← g.get i j) > newValue then (g.set i j newValue).map Prod.snd else some g

/-- The two inner loops, for one `k`. -/
def computeRound (g : Graph T) (k : ℕ) : Option (Graph T) :=
  (List.range g.data.length).foldlM (fun g i => (List.range g.data.length).foldlM (relax k i) g) g

/-- The first `rounds` rounds of the outer loop. -/
def computeRounds (g : Graph T) (rounds : ℕ) : Option (Graph T) :=
  (List.range rounds).foldlM computeRound g

def computeFloydWarshall (g : Graph T) : Option (Graph T) := g.computeRounds g.data.length

end Graph

namespace Block

/-- The body of the loops of `compute_floyd_warshall_inner`. -/
def relax (neighbours : ℕ → Option (Block T)) (k i : ℕ) (block : Block T) (j : ℕ) :
    Option (Block T) := do
  let globalI := block.rowOffset + i
  let globalJ := block.colOffset + j
  let newValue := (← block.elementAt globalI k neighbours) + (← block.elementAt k globalJ neighbours)
  if (← block.get i j) > newValue then (block.set i j newValue).map Prod.snd else some block

/-- The block when the loops reach the local entry `(i, j)`. -/
def computeUpTo (block : Block T) (neighbours : ℕ → Option (Block T)) (k i j : ℕ) :
    Option (Block T) := do
  let block ← (List.range i).foldlM
    (fun block i => (List.range block.graph.data.length).foldlM (relax neighbours k i) block) block
  (List.range j).foldlM (relax neighbours k i) block

def computeFloydWarshallInner (block : Block T) (neighbours : ℕ → Option (Block T)) (k : ℕ) :
    Option (Block T) :=
  (List.range block.graph.data.length).foldlM
    (fun block i => (List.range block.graph.data.length).foldlM (relax neighbours k i) block) block

end Block

/-- The block with the given id, as the callers look it up. -/
def lookup (blocks : List (List (Block T))) (blockId : ℕ) : Option (Block T) := do
  let i ← div blockId blocks.length
  let j ← rem blockId blocks.length
  let row ← blocks[i]?
  row[j]?

/-- One round of the blocked version: every block reads the others as they were before it. -/
def blockedRound (blocks : List (List (Block T))) (k : ℕ) : Option (List (List (Block T))) :=
  blocks.mapM fun row => row.mapM fun block => block.computeFloydWarshallInner (lookup blocks) k

/-- The first `rounds` rounds of the blocked version. -/
def blockedRounds (blocks : List (List (Block T))) (rounds : ℕ) : Option (List (List (Block T))) :=
  (List.range rounds).foldlM blockedRound blocks

/-- Break into blocks, one round for each node, assemble. -/
def blockedFloydWarshall (g : Graph T) (blockSize : ℕ) : Option (Graph T) := do
  let blocks ← g.breakIntoBlocks blockSize
  let blocks ← blockedRounds blocks g.numNodes
  Graph.assembleFromBlocks blocks

end Numeric

/-! ### Tables -/

/-- The graph on `n` nodes with the entries of a table. -/
def Graph.ofMatrix (n : ℕ) (m : ℕ × ℕ → T) : Graph T :=
  ⟨(List.range n).map fun i => (List.range n).map fun j => m (i, j)⟩

theorem map_range_set {α : Type*} (n i : ℕ) (f : ℕ → α) (v : α) :
    ((List.range n).map f).set i v = (List.range n).map (Function.update f i v) := by
  refine List.ext_getElem (by simp) fun j h1 h2 => ?_
  simp only [List.getElem_set, List.getElem_map, List.getElem_range, Function.update_apply, eq_comm]

theorem getElem?_map_range {α : Type*} {n i : ℕ} (f : ℕ → α) (hi : i < n) :
    ((List.range n).map f)[i]? = some (f i) := by
  rw [List.getElem?_map, List.getElem?_range hi]
  rfl

section Tables
variable {n i j : ℕ} (m : ℕ × ℕ → T)

@[simp] theorem ofMatrix_data_length : (Graph.ofMatrix n m).data.length = n := by
  simp [Graph.ofMatrix]

theorem get_ofMatrix (hi : i < n) (hj : j < n) : (Graph.ofMatrix n m).get i j = some (m (i, j)) := by
  unfold Graph.get Graph.ofMatrix
  rw [getElem?_map_range _ hi, Option.bind_eq_bind, Option.bind_some, getElem?_map_range _ hj]

theorem set_ofMatrix (hi : i < n) (hj : j < n) (v : T) :
    (Graph.ofMatrix n m).set i j v =
      some (m (i, j), Graph.ofMatrix n (Function.update m (i, j) v)) := by
  unfold Graph.set Graph.ofMatrix
  rw [getElem?_map_range _ hi, Option.bind_eq_bind, Option.bind_some, getElem?_map_range _ hj,
    Option.bind_eq_bind, Option.bind_some, map_range_set, map_range_set]
  congr 4
  funext a
  by_cases ha : a = i
  · subst ha
    rw [Function.update_self]
    refine List.map_congr_left fun b _ => ?_
    simp [Function.update_apply]
  · rw [Function.update_of_ne ha]
    refine List.map_congr_left fun b _ => ?_
    simp [ha]

end Tables

/-- Every square matrix is a table, with zeros outside. -/
theorem exists_ofMatrix [Zero T] {g : Graph T} {n : ℕ} (hlen : g.data.length = n)
    (hrow : ∀ row ∈ g.data, row.length = n) :
    g = Graph.ofMatrix n fun c => (g.get c.1 c.2).getD 0 := by
  obtain ⟨data⟩ := g
  congr 1
  refine List.ext_getElem (by simpa using hlen) fun i h1 h2 => ?_
  have hi : data[i].length = n := hrow _ (List.getElem_mem h1)
  refine List.ext_getElem (by simpa using hi) fun j h3 h4 => ?_
  simp [Graph.get, List.getElem?_eq_getElem h1, List.getElem?_eq_getElem h3]

/-! ### The plain version -/

section Relax
variable [Add T] [LT T] [DecidableLT T]

/-- The new value of an entry in round `k`. -/
def relaxAt (k : ℕ) (m : ℕ × ℕ → T) (c : ℕ × ℕ) : T :=
  if m c > m (c.1, k) + m (k, c.2) then m (c.1, k) + m (k, c.2) else m c

/-- The table after round `k`. -/
def relaxed (n k : ℕ) (m : ℕ × ℕ → T) : ℕ × ℕ → T :=
  fun c => if c.1 < n ∧ c.2 < n then relaxAt k m c else m c

/-- The table after the first `rounds` rounds. -/
def distances (n : ℕ) (m : ℕ × ℕ → T) (rounds : ℕ) : ℕ × ℕ → T :=
  (List.range rounds).foldl (fun m k => relaxed n k m) m

theorem distances_succ (n : ℕ) (m : ℕ × ℕ → T) (rounds : ℕ) :
    distances n m (rounds + 1) = relaxed n rounds (distances n m rounds) := by
  rw [distances, List.range_succ, List.foldl_append]
  rfl

theorem foldl_product {σ : Type*} (f : σ → ℕ × ℕ → σ) (rows cols : List ℕ) (s : σ) :
    rows.foldl (fun s i => cols.foldl (fun s j => f s (i, j)) s) s =
      (rows ×ˢ cols).foldl f s := by
  change _ = (rows.flatMap fun i => cols.map (Prod.mk i)).foldl f s
  rw [List.foldl_flatMap]
  congr 1
  funext s i
  rw [List.foldl_map]

theorem relax_ofMatrix {n k i j : ℕ} (m : ℕ × ℕ → T) (hk : k < n) (hi : i < n) (hj : j < n) :
    Graph.relax k i (Graph.ofMatrix n m) j =
      some (Graph.ofMatrix n (Function.update m (i, j) (relaxAt k m (i, j)))) := by
  unfold Graph.relax
  rw [get_ofMatrix m hi hk, get_ofMatrix m hk hj, get_ofMatrix m hi hj]
  simp only [Option.bind_eq_bind, Option.bind_some, relaxAt]
  split_ifs
  · rw [set_ofMatrix m hi hj]
    rfl
  · rw [Function.update_eq_self]

/-- A round of the plain version is a sweep over all entries. -/
theorem computeRound_ofMatrix {n k : ℕ} (m : ℕ × ℕ → T) (hk : k < n) :
    (Graph.ofMatrix n m).computeRound k = some (Graph.ofMatrix n
      (sweep (relaxAt k) (List.range n ×ˢ List.range n) m)) := by
  unfold Graph.computeRound
  rw [ofMatrix_data_length, sweep, ← foldl_product]
  refine (foldlM_eq_some (r := Graph.ofMatrix n) (I := fun _ => True) (fun m _ i hi => ⟨?_, trivial⟩)
    trivial).1
  rw [ofMatrix_data_length]
  refine (foldlM_eq_some (r := Graph.ofMatrix n) (I := fun _ => True) (fun m _ j hj => ⟨?_, trivial⟩)
    trivial).1
  exact relax_ofMatrix m hk (List.mem_range.mp hi) (List.mem_range.mp hj)

end Relax

/-! ### Weights -/

section Weights
variable [AddCommMonoid T] [LinearOrder T] [IsOrderedAddMonoid T] {m : ℕ × ℕ → T}

/-- **Distances**: every node is at distance zero from itself, and no distance is negative. -/
structure Weights (m : ℕ × ℕ → T) : Prop where
  diagonal : ∀ i, m (i, i) = 0
  nonneg : ∀ c, 0 ≤ m c

omit [IsOrderedAddMonoid T] in
/-- **Row `k` and column `k` are stable in round `k`.** -/
theorem Weights.relax_local (h : Weights m) (k : ℕ) :
    Local (relaxAt k) (fun c => c.1 = k ∨ c.2 = k) m := by
  refine ⟨fun s c hstable hc => ?_, fun c hc => ?_⟩
  · unfold relaxAt
    rw [hstable (c.1, k) (.inr rfl), hstable (k, c.2) (.inl rfl), hc]
  · obtain ⟨i, j⟩ := c
    unfold relaxAt
    refine if_neg (not_lt.mpr ?_)
    rcases hc with rfl | rfl
    · rw [h.diagonal, zero_add]
    · rw [h.diagonal, add_zero]

omit [IsOrderedAddMonoid T] in
theorem Weights.sweep_eq_relaxed (h : Weights m) (n k : ℕ) :
    sweep (relaxAt k) (List.range n ×ˢ List.range n) m = relaxed n k m := by
  rw [sweep_eq (h.relax_local k) (List.Nodup.product List.nodup_range List.nodup_range)]
  funext c
  obtain ⟨i, j⟩ := c
  simp only [relaxed, List.mem_product, List.mem_range]

/-- A round keeps both properties. -/
theorem Weights.relaxed (h : Weights m) (n k : ℕ) : Weights (relaxed n k m) := by
  have hsum : ∀ c : ℕ × ℕ, 0 ≤ m (c.1, k) + m (k, c.2) := fun c =>
    add_nonneg (h.nonneg _) (h.nonneg _)
  refine ⟨fun i => ?_, fun c => ?_⟩
  · unfold Graphs.relaxed relaxAt
    split_ifs with hin hlt
    · rw [h.diagonal] at hlt
      exact absurd hlt (not_lt.mpr (hsum (i, i)))
    · exact h.diagonal i
    · exact h.diagonal i
  · unfold Graphs.relaxed relaxAt
    split_ifs
    · exact hsum c
    · exact h.nonneg c
    · exact h.nonneg c

theorem Weights.distances (h : Weights m) (n rounds : ℕ) : Weights (distances n m rounds) := by
  induction rounds with
  | zero => exact h
  | succ rounds ih =>
    rw [distances_succ]
    exact ih.relaxed n rounds

/-- **The plain version computes the tables of all rounds.** -/
theorem Weights.computeRounds (h : Weights m) {n rounds : ℕ} (hle : rounds ≤ n) :
    (Graph.ofMatrix n m).computeRounds rounds = some (Graph.ofMatrix n (Graphs.distances n m rounds)) := by
  refine (foldlM_eq_some (r := Graph.ofMatrix n) (I := Weights) (fun m hm k hk => ?_) h).1
  have hk : k < n := (List.mem_range.mp hk).trans_le hle
  refine ⟨?_, hm.relaxed n k⟩
  rw [computeRound_ofMatrix m hk, hm.sweep_eq_relaxed]

end Weights

/-! ### Blocks of a table -/

/-- The block at row `p` and column `q` of `N` by `N` blocks of size `b`. -/
def Block.ofMatrix (N b : ℕ) (m : ℕ × ℕ → T) (p q : ℕ) : Block T where
  blockId := p * N + q
  numBlocksPerDim := N
  rowOffset := p * b
  colOffset := q * b
  blockSize := b
  graph := Graph.ofMatrix b fun c => m (p * b + c.1, q * b + c.2)

/-- All the blocks of a table. -/
def blocksOf (N b : ℕ) (m : ℕ × ℕ → T) : List (List (Block T)) :=
  (List.range N).map fun p => (List.range N).map fun q => Block.ofMatrix N b m p q

section Blocks
variable {N b p q : ℕ} (m : ℕ × ℕ → T)

@[simp] theorem ofMatrix_blockId : (Block.ofMatrix N b m p q).blockId = p * N + q := rfl

@[simp] theorem ofMatrix_numBlocksPerDim : (Block.ofMatrix N b m p q).numBlocksPerDim = N := rfl

@[simp] theorem ofMatrix_rowOffset : (Block.ofMatrix N b m p q).rowOffset = p * b := rfl

@[simp] theorem ofMatrix_colOffset : (Block.ofMatrix N b m p q).colOffset = q * b := rfl

@[simp] theorem ofMatrix_blockSize : (Block.ofMatrix N b m p q).blockSize = b := rfl

@[simp] theorem ofMatrix_graph_length : (Block.ofMatrix N b m p q).graph.data.length = b :=
  ofMatrix_data_length _

theorem div_pos_eq {a b : ℕ} (hb : 0 < b) : div a b = some (a / b) := if_neg hb.ne'

theorem rem_pos_eq {a b : ℕ} (hb : 0 < b) : rem a b = some (a % b) := if_neg hb.ne'

theorem blockId_div (hq : q < N) : (p * N + q) / N = p := by
  rw [Nat.add_comm, Nat.add_mul_div_right _ _ (by omega), Nat.div_eq_of_lt hq, Nat.zero_add]

theorem blockId_mod (hq : q < N) : (p * N + q) % N = q := by
  rw [Nat.add_comm, Nat.add_mul_mod_self_right, Nat.mod_eq_of_lt hq]

theorem offset_lt {i : ℕ} (hp : p < N) (hi : i < b) : p * b + i < N * b := by
  calc p * b + i < p * b + b := by omega
    _ = (p + 1) * b := by ring
    _ ≤ N * b := Nat.mul_le_mul_right b hp

theorem div_lt {i : ℕ} (hi : i < N * b) : i / b < N :=
  Nat.div_lt_of_lt_mul (by rwa [Nat.mul_comm])

theorem ofData_map_range {α : ℕ → List T} {n : ℕ} (hn : 0 < n) (hlen : ∀ i, (α i).length = n) :
    Graph.ofData ((List.range n).map α) = some ⟨(List.range n).map α⟩ := by
  unfold Graph.ofData
  rw [getElem?_map_range _ hn, Option.bind_eq_bind, Option.bind_some, if_pos]
  simp [hlen]

theorem getBlock_ofMatrix (hb : 0 < b) (hp : p < N) (hq : q < N) :
    (Graph.ofMatrix (N * b) m).getBlock (p * N + q) b = some (Block.ofMatrix N b m p q) := by
  unfold Graph.getBlock
  rw [ofMatrix_data_length, div_pos_eq hb, Nat.mul_div_cancel _ hb, Option.bind_eq_bind,
    Option.bind_some, div_pos_eq (by omega), rem_pos_eq (by omega), blockId_div hq, blockId_mod hq]
  simp only [Option.bind_eq_bind, Option.bind_some]
  rw [mapM_eq_some (g := fun i => (List.range b).map fun j => m (p * b + i, q * b + j)),
    Option.bind_some, Block.ofData, ofData_map_range hb (by simp)]
  · simp [Block.ofMatrix, Graph.ofMatrix]
  · intro i hi
    refine mapM_eq_some fun j hj => ?_
    exact get_ofMatrix m (offset_lt hp (List.mem_range.mp hi)) (offset_lt hq (List.mem_range.mp hj))

theorem breakIntoBlocks_ofMatrix (hb : 0 < b) :
    (Graph.ofMatrix (N * b) m).breakIntoBlocks b = some (blocksOf N b m) := by
  unfold Graph.breakIntoBlocks
  rw [ofMatrix_data_length, rem_pos_eq hb, Option.bind_eq_bind, Option.bind_some,
    if_pos (Nat.mul_mod_left N b), div_pos_eq hb, Nat.mul_div_cancel _ hb, Option.bind_some]
  refine mapM_eq_some fun p hp => mapM_eq_some fun q hq => ?_
  exact getBlock_ofMatrix m hb (List.mem_range.mp hp) (List.mem_range.mp hq)

theorem getElem?_blocksOf (hp : p < N) :
    (blocksOf N b m)[p]? = some ((List.range N).map fun q => Block.ofMatrix N b m p q) :=
  getElem?_map_range _ hp

@[simp] theorem length_blocksOf : (blocksOf N b m).length = N := by simp [blocksOf]

theorem get_block {i j : ℕ} (hi : i < b) (hj : j < b) :
    (Block.ofMatrix N b m p q).get i j = some (m (p * b + i, q * b + j)) :=
  get_ofMatrix _ hi hj

/-- The local place of an entry. -/
theorem get_block_mod {row col : ℕ} (hb : 0 < b) :
    (Block.ofMatrix N b m (row / b) (col / b)).get (row % b) (col % b) = some (m (row, col)) := by
  rw [get_block m (Nat.mod_lt _ hb) (Nat.mod_lt _ hb), Nat.mul_comm, Nat.div_add_mod, Nat.mul_comm,
    Nat.div_add_mod]

theorem assembleFromBlocks_blocksOf (hb : 0 < b) (hN : 0 < N) :
    Graph.assembleFromBlocks (blocksOf N b m) = some (Graph.ofMatrix (N * b) m) := by
  unfold Graph.assembleFromBlocks
  rw [getElem?_blocksOf m hN, Option.bind_eq_bind, Option.bind_some, length_blocksOf,
    if_pos (by simp), getElem?_map_range _ hN]
  simp only [Option.bind_eq_bind, Option.bind_some, ofMatrix_blockSize]
  rw [mapM_eq_some (g := fun i => (List.range (N * b)).map fun j => m (i, j)), Option.bind_some,
    ofData_map_range (Nat.mul_pos hN hb) (by simp)]
  · rfl
  · intro i hi
    refine mapM_eq_some fun j hj => ?_
    have hp := div_lt (List.mem_range.mp hi)
    have hq := div_lt (List.mem_range.mp hj)
    simp only [div_pos_eq hb, rem_pos_eq hb, Option.bind_some]
    rw [getElem?_blocksOf m hp, Option.bind_some, getElem?_map_range _ hq, Option.bind_some]
    exact get_block_mod m hb

theorem lookup_blocksOf (hp : p < N) (hq : q < N) :
    lookup (blocksOf N b m) (p * N + q) = some (Block.ofMatrix N b m p q) := by
  unfold lookup
  rw [length_blocksOf, div_pos_eq (by omega), rem_pos_eq (by omega), blockId_div hq, blockId_mod hq]
  simp only [Option.bind_eq_bind, Option.bind_some]
  rw [getElem?_blocksOf m hp, Option.bind_some, getElem?_map_range _ hq]

variable {m}

/-- Two tables agree outside the block at `(p, q)`. -/
def AgreeOff (b p q : ℕ) (m s : ℕ × ℕ → T) : Prop :=
  ∀ c : ℕ × ℕ, ¬ (c.1 / b = p ∧ c.2 / b = q) → s c = m c

/-- **`element_at` reads the entry** from the block itself, which may have changed, or from a block that
exists and has not. -/
theorem elementAt_ofMatrix {s : ℕ × ℕ → T} (hb : 0 < b) (hq : q < N) (hs : AgreeOff b p q m s)
    {row col : ℕ} (hrow : row < N * b) (hcol : col < N * b) :
    (Block.ofMatrix N b s p q).elementAt row col (lookup (blocksOf N b m)) = some (s (row, col)) := by
  have hr := div_lt hrow
  have hc := div_lt hcol
  unfold Block.elementAt
  simp only [ofMatrix_blockSize, ofMatrix_numBlocksPerDim, ofMatrix_blockId, div_pos_eq hb,
    rem_pos_eq hb, Option.bind_some, Option.bind_eq_bind]
  by_cases hself : row / b * N + col / b = p * N + q
  · -- the id tells which block it is
    have hpq : row / b = p ∧ col / b = q := by
      constructor
      · rw [← blockId_div (p := row / b) hc, hself, blockId_div hq]
      · rw [← blockId_mod (p := row / b) hc, hself, blockId_mod hq]
    refine (if_pos hself).trans ?_
    obtain ⟨rfl, rfl⟩ := hpq
    exact get_block_mod s hb
  · refine (if_neg hself).trans ?_
    rw [lookup_blocksOf m hr hc, Option.bind_some, get_block_mod m hb,
      hs (row, col) fun hpq => hself (by rw [hpq.1, hpq.2])]

theorem set_block {i j : ℕ} (s : ℕ × ℕ → T) (hi : i < b) (hj : j < b) (v : T) :
    (Block.ofMatrix N b s p q).set i j v = some (s (p * b + i, q * b + j),
      Block.ofMatrix N b (Function.update s (p * b + i, q * b + j) v) p q) := by
  have hgraph : Graph.ofMatrix b (Function.update (fun c => s (p * b + c.1, q * b + c.2)) (i, j) v) =
      Graph.ofMatrix b fun c =>
        Function.update s (p * b + i, q * b + j) v (p * b + c.1, q * b + c.2) := by
    congr 1
    funext c
    simp only [Function.update_apply, Prod.ext_iff, Nat.add_left_cancel_iff]
  unfold Block.set
  change Option.bind ((Graph.ofMatrix b fun c => s (p * b + c.1, q * b + c.2)).set i j v) _ = _
  rw [set_ofMatrix _ hi hj, Option.bind_some, hgraph]
  rfl

/-- A change in the block. -/
theorem AgreeOff.update {s : ℕ × ℕ → T} {i j : ℕ} (hs : AgreeOff b p q m s) (hi : i < b) (hj : j < b)
    (v : T) : AgreeOff b p q m (Function.update s (p * b + i, q * b + j) v) := by
  intro c hc
  have hne : c ≠ (p * b + i, q * b + j) := by
    rintro rfl
    exact hc ⟨blockId_div hi, blockId_div hj⟩
  rw [Function.update_of_ne hne]
  exact hs c hc

end Blocks

/-! ### The blocked version -/

section Inner
variable [Add T] [LT T] [DecidableLT T] {N b p q k : ℕ} {m s : ℕ × ℕ → T}

theorem relax_block {i j : ℕ} (hb : 0 < b) (hp : p < N) (hq : q < N) (hk : k < N * b)
    (hs : AgreeOff b p q m s) (hi : i < b) (hj : j < b) :
    Block.relax (lookup (blocksOf N b m)) k i (Block.ofMatrix N b s p q) j =
      some (Block.ofMatrix N b (Function.update s (p * b + i, q * b + j)
        (relaxAt k s (p * b + i, q * b + j))) p q) := by
  unfold Block.relax
  simp only [ofMatrix_rowOffset, ofMatrix_colOffset]
  rw [elementAt_ofMatrix hb hq hs (offset_lt hp hi) hk,
    elementAt_ofMatrix hb hq hs hk (offset_lt hq hj), get_block s hi hj]
  simp only [Option.bind_eq_bind, Option.bind_some, relaxAt]
  split_ifs
  · rw [set_block s hi hj]
    rfl
  · rw [Function.update_eq_self]

/-- The places of a block in the table. -/
def place (b p q : ℕ) (c : ℕ × ℕ) : ℕ × ℕ := (p * b + c.1, q * b + c.2)

/-- The inner loops up to a row, and up to a column of it. -/
theorem relax_row {i j : ℕ} (hb : 0 < b) (hp : p < N) (hq : q < N) (hk : k < N * b)
    (hs : AgreeOff b p q m s) (hi : i < b) (hj : j ≤ b) :
    (List.range j).foldlM (Block.relax (lookup (blocksOf N b m)) k i) (Block.ofMatrix N b s p q) =
      some (Block.ofMatrix N b (sweep (relaxAt k)
        ((List.range j).map fun j => place b p q (i, j)) s) p q) ∧
      AgreeOff b p q m (sweep (relaxAt k) ((List.range j).map fun j => place b p q (i, j)) s) := by
  rw [sweep, List.foldl_map]
  refine foldlM_eq_some (r := fun s => Block.ofMatrix N b s p q) (fun s hs j' hj' => ?_) hs
  have hj' : j' < b := (List.mem_range.mp hj').trans_le hj
  exact ⟨relax_block hb hp hq hk hs hi hj', hs.update hi hj' _⟩

theorem relax_rows {i : ℕ} (hb : 0 < b) (hp : p < N) (hq : q < N) (hk : k < N * b)
    (hs : AgreeOff b p q m s) (hi : i ≤ b) :
    (List.range i).foldlM (fun block i => (List.range block.graph.data.length).foldlM
      (Block.relax (lookup (blocksOf N b m)) k i) block) (Block.ofMatrix N b s p q) =
      some (Block.ofMatrix N b (sweep (relaxAt k)
        ((List.range i ×ˢ List.range b).map (place b p q)) s) p q) ∧
      AgreeOff b p q m
        (sweep (relaxAt k) ((List.range i ×ˢ List.range b).map (place b p q)) s) := by
  rw [sweep, List.foldl_map, ← foldl_product]
  refine foldlM_eq_some (r := fun s => Block.ofMatrix N b s p q) (fun s hs i' hi' => ?_) hs
  have hi' : i' < b := (List.mem_range.mp hi').trans_le hi
  rw [ofMatrix_graph_length]
  have := relax_row hb hp hq hk hs hi' (Nat.le_refl b)
  rw [sweep, List.foldl_map] at this
  exact this

end Inner

section Rounds
variable [AddCommMonoid T] [LinearOrder T] [IsOrderedAddMonoid T] {N b p q k : ℕ} {m : ℕ × ℕ → T}

omit [AddCommMonoid T] [LinearOrder T] [IsOrderedAddMonoid T] in
theorem ofMatrix_congr {n : ℕ} {m m' : ℕ × ℕ → T} (h : ∀ i < n, ∀ j < n, m (i, j) = m' (i, j)) :
    Graph.ofMatrix n m = Graph.ofMatrix n m' := by
  unfold Graph.ofMatrix
  congr 1
  refine List.map_congr_left fun i hi => List.map_congr_left fun j hj => ?_
  exact h i (List.mem_range.mp hi) j (List.mem_range.mp hj)

theorem place_injective (b p q : ℕ) : Function.Injective (place b p q) := by
  rintro ⟨i, j⟩ ⟨i', j'⟩ h
  simp only [place, Prod.mk.injEq, Nat.add_left_cancel_iff] at h
  rw [h.1, h.2]

omit [IsOrderedAddMonoid T] in
/-- **The inner loops of a block** end with the entries that the block has after the round. -/
theorem computeFloydWarshallInner_ofMatrix (h : Weights m) (hb : 0 < b) (hp : p < N) (hq : q < N)
    (hk : k < N * b) :
    (Block.ofMatrix N b m p q).computeFloydWarshallInner (lookup (blocksOf N b m)) k =
      some (Block.ofMatrix N b (relaxed (N * b) k m) p q) := by
  unfold Block.computeFloydWarshallInner
  rw [ofMatrix_graph_length, (relax_rows hb hp hq hk (fun _ _ => rfl) (Nat.le_refl b)).1]
  congr 1
  unfold Block.ofMatrix
  congr 1
  refine ofMatrix_congr fun i hi j hj => ?_
  have hnd : ((List.range b ×ˢ List.range b).map (place b p q)).Nodup :=
    (List.Nodup.product List.nodup_range List.nodup_range).map (place_injective b p q)
  rw [sweep_eq (h.relax_local k) hnd]
  have hin : (p * b + i, q * b + j) ∈ (List.range b ×ˢ List.range b).map (place b p q) :=
    List.mem_map.mpr ⟨(i, j), by simp [hi, hj], rfl⟩
  have hlt : p * b + i < N * b ∧ q * b + j < N * b := ⟨offset_lt hp hi, offset_lt hq hj⟩
  exact (if_pos hin).trans (if_pos hlt).symm

omit [IsOrderedAddMonoid T] in
/-- **A round of the blocked version.** -/
theorem blockedRound_blocksOf (h : Weights m) (hb : 0 < b) (hk : k < N * b) :
    blockedRound (blocksOf N b m) k = some (blocksOf N b (relaxed (N * b) k m)) := by
  have hblock : ∀ p ∈ List.range N, ∀ q ∈ List.range N,
      (Block.ofMatrix N b m p q).computeFloydWarshallInner (lookup (blocksOf N b m)) k =
        some (Block.ofMatrix N b (relaxed (N * b) k m) p q) := fun p hp q hq =>
    computeFloydWarshallInner_ofMatrix h hb (List.mem_range.mp hp) (List.mem_range.mp hq) hk
  unfold blockedRound
  generalize lookup (blocksOf N b m) = neighbours at hblock ⊢
  rw [blocksOf, List.mapM_map]
  refine mapM_eq_some fun p hp => ?_
  rw [Function.comp_apply, List.mapM_map]
  exact mapM_eq_some fun q hq => hblock p hp q hq

theorem blockedRounds_blocksOf (h : Weights m) (hb : 0 < b) {rounds : ℕ} (hle : rounds ≤ N * b) :
    blockedRounds (blocksOf N b m) rounds = some (blocksOf N b (distances (N * b) m rounds)) := by
  refine (foldlM_eq_some (r := blocksOf N b) (I := Weights) (fun m hm k hk => ?_) h).1
  have hk : k < N * b := (List.mem_range.mp hk).trans_le hle
  exact ⟨blockedRound_blocksOf hm hb hk, hm.relaxed _ k⟩

omit [IsOrderedAddMonoid T] in
/-- When the loops reach a place, the block has changed no entry of row `k` or column `k`. -/
theorem computeUpTo_ofMatrix (h : Weights m) (hb : 0 < b) (hp : p < N) (hq : q < N) (hk : k < N * b)
    {i j : ℕ} (hi : i < b) (hj : j < b) : ∃ s, AgreeOff b p q m s ∧
      (∀ c : ℕ × ℕ, c.1 = k ∨ c.2 = k → s c = m c) ∧
      (Block.ofMatrix N b m p q).computeUpTo (lookup (blocksOf N b m)) k i j =
        some (Block.ofMatrix N b s p q) := by
  obtain ⟨hrows, hagree⟩ := relax_rows hb hp hq hk (m := m) (s := m) (fun _ _ => rfl) hi.le
  obtain ⟨hrow, hagree⟩ := relax_row hb hp hq hk hagree hi hj.le
  refine ⟨_, hagree, fun c hc => ?_, ?_⟩
  · rw [sweep, sweep, ← List.foldl_append]
    refine sweep_stable (h.relax_local k) ?_ hc
    have hsplit : (List.range j).map (fun j => place b p q (i, j)) =
        ((List.range j).map (Prod.mk i)).map (place b p q) := by rw [List.map_map]; rfl
    rw [hsplit, ← List.map_append]
    refine List.Nodup.map (place_injective b p q) (List.nodup_append.mpr ⟨?_, ?_, ?_⟩)
    · exact List.Nodup.product List.nodup_range List.nodup_range
    · exact List.nodup_range.map (Prod.mk_right_injective i)
    · rintro ⟨i', j'⟩ hin c hc rfl
      obtain ⟨j'', -, heq⟩ := List.mem_map.mp hc
      have hi' := List.mem_range.mp (List.mem_product.mp hin).1
      rw [Prod.mk.injEq] at heq
      omega
  · unfold Block.computeUpTo
    rw [hrows, Option.bind_eq_bind, Option.bind_some, hrow]

omit [IsOrderedAddMonoid T] in
theorem weights_of_get {g : Graph T} {n : ℕ} (hlen : g.data.length = n)
    (hdiag : ∀ i < n, g.get i i = some 0) (hnonneg : ∀ i j v, g.get i j = some v → 0 ≤ v) :
    Weights fun c : ℕ × ℕ => (g.get c.1 c.2).getD 0 := by
  refine ⟨fun i => ?_, fun c => ?_⟩
  · rcases Nat.lt_or_ge i n with hi | hi
    · rw [hdiag i hi]
      rfl
    · have hnone : g.data[i]? = none := List.getElem?_eq_none (hlen ▸ hi)
      simp [Graph.get, hnone]
  · cases hget : g.get c.1 c.2 with
    | none => exact le_refl _
    | some v => exact hnonneg _ _ v hget

/-- **The blocked version computes what the plain one computes**, and every call of `element_at` in a
round `k` returns the entry of the whole matrix before the round, from a block that exists: at the
start of the round for every place, and for the two places that the loops read when they reach the
local entry `(i, j)`. -/
theorem blockedFloydWarshall_eq {g : Graph T} {n b : ℕ} (hn : 1 ≤ n) (hb : 1 ≤ b) (hdvd : b ∣ n)
    (hlen : g.data.length = n) (hrow : ∀ row ∈ g.data, row.length = n)
    (hdiag : ∀ i < n, g.get i i = some 0) (hnonneg : ∀ i j v, g.get i j = some v → 0 ≤ v) :
    (∃ g', g.computeFloydWarshall = some g' ∧ blockedFloydWarshall g b = some g') ∧
    ∀ k < n, ∃ gk blocks, g.computeRounds k = some gk ∧
      ((g.breakIntoBlocks b).bind fun blocks => blockedRounds blocks k) = some blocks ∧
      ∀ row ∈ blocks, ∀ block ∈ row,
        (∀ r < n, ∀ c < n, ∃ v, block.elementAt r c (lookup blocks) = some v ∧ gk.get r c = some v) ∧
        ∀ i < b, ∀ j < b, ∃ block' d₁ d₂, block.computeUpTo (lookup blocks) k i j = some block' ∧
          block'.elementAt (block.rowOffset + i) k (lookup blocks) = some d₁ ∧
          gk.get (block.rowOffset + i) k = some d₁ ∧
          block'.elementAt k (block.colOffset + j) (lookup blocks) = some d₂ ∧
          gk.get k (block.colOffset + j) = some d₂ := by
  obtain ⟨N, rfl⟩ := hdvd
  rw [Nat.mul_comm b N] at *
  have hN : 0 < N := Nat.pos_of_mul_pos_right hn
  have hg := exists_ofMatrix hlen hrow
  have hw := weights_of_get hlen hdiag hnonneg
  generalize (fun c : ℕ × ℕ => (g.get c.1 c.2).getD 0) = m at hg hw
  subst hg
  have hbreak := breakIntoBlocks_ofMatrix m hb (N := N)
  refine ⟨⟨Graph.ofMatrix (N * b) (distances (N * b) m (N * b)), ?_, ?_⟩, fun k hk =>
    ⟨Graph.ofMatrix (N * b) (distances (N * b) m k), blocksOf N b (distances (N * b) m k),
      hw.computeRounds hk.le, ?_, fun row hrow block hblock => ?_⟩⟩
  · rw [Graph.computeFloydWarshall, ofMatrix_data_length]
    exact hw.computeRounds (Nat.le_refl _)
  · unfold blockedFloydWarshall
    rw [hbreak, Option.bind_eq_bind, Option.bind_some, Graph.numNodes, ofMatrix_data_length,
      blockedRounds_blocksOf hw hb (Nat.le_refl _), Option.bind_some,
      assembleFromBlocks_blocksOf _ hb hN]
  · rw [hbreak, Option.bind_some, blockedRounds_blocksOf hw hb hk.le]
  · -- the block at `(p, q)` before round `k`
    obtain ⟨p, hp, rfl⟩ := List.mem_map.mp hrow
    obtain ⟨q, hq, rfl⟩ := List.mem_map.mp hblock
    rw [List.mem_range] at hp hq
    have hwk := hw.distances (N * b) k
    generalize distances (N * b) m k = mk at hwk
    refine ⟨fun r hr c hc => ?_, fun i hi j hj => ?_⟩
    · exact ⟨_, elementAt_ofMatrix hb hq (fun _ _ => rfl) hr hc, get_ofMatrix mk hr hc⟩
    · obtain ⟨s, hagree, hsame, hupto⟩ := computeUpTo_ofMatrix hwk hb hp hq hk hi hj
      have hrow := elementAt_ofMatrix hb hq hagree (offset_lt hp hi) hk
      have hcol := elementAt_ofMatrix hb hq hagree hk (offset_lt hq hj)
      rw [hsame _ (.inr rfl)] at hrow
      rw [hsame _ (.inl rfl)] at hcol
      exact ⟨_, _, _, hupto, hrow, get_ofMatrix mk (offset_lt hp hi) hk, hcol,
        get_ofMatrix mk hk (offset_lt hq hj)⟩

end Rounds

/-- Four nodes, with edges of weight `7`, `2`, `1` and `4` and no others. -/
def fourNodes : Graph (WithTop ℕ) :=
  ⟨[[0, 7, 2, ⊤], [⊤, 0, ⊤, 1], [⊤, 4, 0, ⊤], [⊤, ⊤, ⊤, 0]]⟩

theorem fourNodes_computeFloydWarshall : fourNodes.computeFloydWarshall =
    some ⟨[[0, 6, 2, 7], [⊤, 0, ⊤, 1], [⊤, 4, 0, 5], [⊤, ⊤, ⊤, 0]]⟩ := by decide +kernel

/-- Blocks of two by two give the distances of the plain version, here `6` and `7` from the first node. -/
theorem blockedFloydWarshall_fourNodes :
    blockedFloydWarshall fourNodes 2 =
        some ⟨[[0, 6, 2, 7], [⊤, 0, ⊤, 1], [⊤, 4, 0, 5], [⊤, ⊤, ⊤, 0]]⟩ ∧
      blockedFloydWarshall fourNodes 2 = fourNodes.computeFloydWarshall := by
  have h := blockedFloydWarshall_eq (g := fourNodes) (n := 4) (b := 2) (by decide) (by decide)
    (by decide) rfl (by decide) (by decide) (fun _ _ _ _ => zero_le)
  obtain ⟨⟨g', hplain, hblocked⟩, -⟩ := h
  rw [hblocked, ← hplain]
  exact ⟨fourNodes_computeFloydWarshall, rfl⟩

end OmniPaxosBench.Shared.Graphs
