import OmniPaxosBench.Lib.Machine
import OmniPaxosBench.Lib.Pieces
import OmniPaxosBench.Experiment.ControlWire
import OmniPaxosBench.Experiment.Master
import Mathlib.Data.Finset.Card

/-! # Preparing an iteration

`prepare_iteration` of the master chooses the nodes that take part, in the order of their pids, and builds
a `PartitioningActor`, which sends every addressed node an `Init` and counts the `InitAck`s. With a pid map
an `Init` goes to every available node, also to those that do not take part, and their answers are
counted too. So the count stands for the participating nodes just when there are no others
(`preparesAll_iff`).

The available nodes are a list of actor paths; the pid map is read from the lines of a file. Counters do
not wrap: there are fewer than `2 ^ 32` clients. -/

namespace OmniPaxosBench.Experiment

open OmniPaxosBench.Lib OmniPaxosBench.Shared.Linearizability

/-- `CountdownEvent::decrement`; `none` if it has been set before. -/
def decrement (latch : ℕ) : Option ℕ := if latch = 0 then none else some (latch - 1)

inductive IterationControlMsg
  | prepare (initData : Option Bytes)
  | run
  | stop
  deriving DecidableEq, Repr

inductive PartitioningActorOut (ActorPath : Type)
  | send (node : ActorPath) (m : PartitioningActorMsg ActorPath)
  | fulfil (results : List KVTimestamp)
  | replyStop
  deriving DecidableEq, Repr

/-- The latches are the numbers they still have to count down. -/
structure PartitioningActor (ActorPath : Type) where
  prepareLatch : ℕ
  finishedLatch : Option ℕ
  replyStop : Bool
  stopAckCount : ℕ
  initId : ℕ
  n : ℕ
  nodes : List ActorPath
  initAckCount : ℕ
  doneCount : ℕ
  pidMap : Option (HashMap ActorPath ℕ)
  testPromise : Bool
  testResults : List KVTimestamp

namespace PartitioningActor

variable {ActorPath : Type} (a : PartitioningActor ActorPath)

/-- `PartitioningActor::with`, with a fresh latch of `1`. -/
def new (finishedLatch : Option ℕ) (initId : ℕ) (nodes : List ActorPath)
    (pidMap : Option (HashMap ActorPath ℕ)) (testPromise : Bool) : PartitioningActor ActorPath where
  prepareLatch := 1
  finishedLatch := finishedLatch
  replyStop := false
  stopAckCount := 0
  initId := initId
  n := 0
  nodes := nodes
  initAckCount := 0
  doneCount := 0
  pidMap := pidMap
  testPromise := testPromise
  testResults := []

/-- The nodes that get an `Init`, with their pids; `order` is the order in which the map is traversed. -/
def addressed [DecidableEq ActorPath] (order : List ActorPath) : List (ActorPath × ℕ) :=
  match a.pidMap with
  | some pidMap => order.filterMap fun node => (pidMap.lookup node).map (node, ·)
  | none => a.nodes.zipIdx 1

/-- The messages of the master. -/
def receiveLocal [DecidableEq ActorPath] (order : List ActorPath) :
    IterationControlMsg → PartitioningActor ActorPath × List (PartitioningActorOut ActorPath)
  | .prepare initData =>
    ({ a with n := a.nodes.length % 2 ^ 32 },
      (a.addressed order).map fun (node, pid) => .send node (.init ⟨pid, a.initId, a.nodes, initData⟩))
  | .run => (a, a.nodes.map fun node => .send node .run)
  | .stop => ({ a with replyStop := true }, a.nodes.map fun node => .send node .stop)

/-- The messages of the nodes; `none` is a panic. -/
def receiveNetwork : PartitioningActorMsg ActorPath →
    Option (PartitioningActor ActorPath × List (PartitioningActorOut ActorPath))
  | .initAck _ =>
    let a := { a with initAckCount := a.initAckCount + 1 }
    if a.initAckCount = a.n then
      (decrement a.prepareLatch).map fun latch => ({ a with prepareLatch := latch }, [])
    else some (a, [])
  | .done =>
    let a := { a with doneCount := a.doneCount + 1 }
    if a.doneCount = a.n then
      (a.finishedLatch.bind decrement).map fun latch => ({ a with finishedLatch := some latch }, [])
    else some (a, [])
  | .testDone td =>
    let a := { a with doneCount := a.doneCount + 1, testResults := a.testResults ++ td }
    if a.doneCount = a.n then
      if a.testPromise then some ({ a with testPromise := false }, [.fulfil a.testResults]) else none
    else some (a, [])
  | .stopAck =>
    let a := { a with stopAckCount := a.stopAckCount + 1 }
    if a.stopAckCount = a.n then
      if a.replyStop then some ({ a with replyStop := false }, [.replyStop]) else none
    else some (a, [])
  | .init _ | .run | .stop => some (a, [])

/-- The actor, and the nodes that answer its `Init` one after the other. -/
def answers (a : PartitioningActor ActorPath) : Machine (PartitioningActor ActorPath) ActorPath where
  init := a
  step a _ := (a.receiveNetwork (.initAck a.initId)).map Prod.fst

/-- **The preparation waits for every node**: in whatever order the addressed nodes answer, the latch is
counted down once, and when that has happened every participating node has answered. -/
def PreparesAll (a : PartitioningActor ActorPath) (addressed : List ActorPath) : Prop :=
  ∀ acks : List ActorPath, acks.Perm addressed →
    (∃ t, a.answers.run a acks = some t ∧ t.prepareLatch + 1 = a.prepareLatch) ∧
    ∀ pre t, pre <+: acks → a.answers.run a pre = some t → t.prepareLatch < a.prepareLatch →
      ∀ node ∈ a.nodes, node ∈ pre

/-! ### Counting the answers -/

variable {a} {acks called : List ActorPath}

/-- The latch after `count` answers. -/
def latchAfter (n count : ℕ) : ℕ := if 1 ≤ n ∧ n ≤ count then 0 else 1

/-- **One answer** counts, and the latch follows the count. -/
theorem answers_step (hlatch : a.prepareLatch = latchAfter a.n a.initAckCount) (node : ActorPath) :
    a.answers.step a node = some { a with
      initAckCount := a.initAckCount + 1
      prepareLatch := latchAfter a.n (a.initAckCount + 1) } := by
  change (a.receiveNetwork (.initAck a.initId)).map Prod.fst = _
  unfold receiveNetwork latchAfter
  dsimp only
  unfold latchAfter at hlatch
  by_cases heq : a.initAckCount + 1 = a.n
  · rw [if_neg (by omega)] at hlatch
    rw [if_pos heq, hlatch, if_pos (by omega)]
    rfl
  · rw [if_neg heq]
    split_ifs at hlatch ⊢ with h1 h2 h2
    · rw [← hlatch]
      rfl
    · omega
    · omega
    · rw [← hlatch]
      rfl

/-- **All answers.** -/
theorem answers_run (hlatch : a.prepareLatch = latchAfter a.n a.initAckCount) (b : PartitioningActor ActorPath) :
    b.answers.run a acks = some { a with
      initAckCount := a.initAckCount + acks.length
      prepareLatch := latchAfter a.n (a.initAckCount + acks.length) } := by
  induction acks generalizing a with
  | nil => rw [List.length_nil, Nat.add_zero, ← hlatch]; rfl
  | cons node acks ih =>
    have hstep : b.answers.step a node = _ := answers_step hlatch node
    rw [Machine.run_cons, hstep, Option.bind_some, ih rfl, List.length_cons, Nat.add_assoc, Nat.add_comm 1]

/-- Waiting for every node, in terms of the order of the answers. -/
theorem preparesAll_iff_prefix (hlatch : a.prepareLatch = 1) (hcount : a.initAckCount = 0) :
    a.PreparesAll called ↔ 1 ≤ a.n ∧ a.n ≤ called.length ∧ ∀ acks : List ActorPath, acks.Perm called →
      ∀ pre, pre <+: acks → a.n ≤ pre.length → ∀ node ∈ a.nodes, node ∈ pre := by
  have hrun : ∀ acks, a.answers.run a acks = some { a with
      initAckCount := acks.length
      prepareLatch := latchAfter a.n acks.length } := by
    intro acks
    have hstart : a.prepareLatch = latchAfter a.n a.initAckCount := by
      rw [hlatch, hcount, latchAfter, if_neg (by omega)]
    rw [answers_run hstart, hcount, Nat.zero_add]
  have hdone : ∀ count, latchAfter a.n count < 1 ↔ 1 ≤ a.n ∧ a.n ≤ count := by
    intro count
    unfold latchAfter
    split_ifs with h
    · exact iff_of_true Nat.zero_lt_one h
    · exact iff_of_false (Nat.lt_irrefl 1) h
  constructor
  · intro hall
    obtain ⟨⟨t, ht, hzero⟩, -⟩ := hall called (List.Perm.refl called)
    rw [hrun] at ht
    cases ht
    dsimp only at hzero
    obtain ⟨hpos, hle⟩ := (hdone called.length).mp (by omega)
    refine ⟨hpos, hle, fun acks hperm pre hpre hlen => ?_⟩
    refine (hall acks hperm).2 pre _ hpre (hrun pre) ?_
    rw [hlatch]
    exact (hdone pre.length).mpr ⟨hpos, hlen⟩
  · rintro ⟨hpos, hle, hall⟩ acks hperm
    refine ⟨⟨_, hrun acks, ?_⟩, fun pre t hpre ht hlt => ?_⟩
    · have hzero := (hdone acks.length).mpr ⟨hpos, by rw [hperm.length_eq]; exact hle⟩
      dsimp only
      omega
    · rw [hrun] at ht
      cases ht
      rw [hlatch] at hlt
      exact hall acks hperm pre hpre ((hdone pre.length).mp hlt).2

/-- As many answers as nodes: the last one completes them. -/
theorem mem_prefix_of_length {nodes pre : List ActorPath} (hsub : ∀ node ∈ nodes, node ∈ called)
    (hlen : called.length = nodes.length) (hperm : acks.Perm called) (hpre : pre <+: acks)
    (hle : nodes.length ≤ pre.length) : ∀ node ∈ nodes, node ∈ pre := by
  have heq : pre = acks := hpre.eq_of_length_le (by rw [hperm.length_eq, hlen]; exact hle)
  intro node hnode
  rw [heq]
  exact hperm.mem_iff.mpr (hsub node hnode)

/-- A node that does not take part can answer in the place of one that does. -/
theorem length_eq_of_prefixes [DecidableEq ActorPath] {nodes : List ActorPath} (hpos : 1 ≤ nodes.length) (hnodup : nodes.Nodup)
    (hcalled : called.Nodup) (hsub : ∀ node ∈ nodes, node ∈ called)
    (hall : ∀ acks : List ActorPath, acks.Perm called → ∀ pre, pre <+: acks → nodes.length ≤ pre.length →
      ∀ node ∈ nodes, node ∈ pre) : called.length = nodes.length := by
  by_contra hne
  have hlt : nodes.length < called.length :=
    lt_of_le_of_ne (hnodup.subperm hsub).length_le (Ne.symm hne)
  obtain ⟨x, hx, hnot⟩ : ∃ x ∈ called, x ∉ nodes := by
    by_contra hnone
    push Not at hnone
    exact absurd (hcalled.subperm hnone).length_le (by omega)
  have hperm : (x :: called.erase x).Perm called := (List.perm_cons_erase hx).symm
  have hmem := hall _ hperm ((x :: called.erase x).take nodes.length) (List.take_prefix _ _) (by
    rw [List.length_take, hperm.length_eq]
    omega)
  have hin : x ∈ (x :: called.erase x).take nodes.length := by
    obtain ⟨k, hk⟩ : ∃ k, nodes.length = k + 1 := Nat.exists_eq_succ_of_ne_zero (by omega)
    rw [hk, List.take_succ_cons]
    exact List.mem_cons_self
  -- the prefix has room for `x` and the nodes only if they are one fewer
  have hsub' : x :: nodes ⊆ (x :: called.erase x).take nodes.length := List.cons_subset.mpr ⟨hin, hmem⟩
  have hle := ((List.nodup_cons.mpr ⟨hnot, hnodup⟩).subperm hsub').length_le
  rw [List.length_take, List.length_cons] at hle
  omega

end PartitioningActor

/-! ### The master -/

section Master

variable {ActorPath : Type} [DecidableEq ActorPath]

/-- A line `<ip> | <path> | <id>` of the file. -/
def parseLine (l : String) : Option (String × ℕ) :=
  match split l '|' with
  | [ip, _, pid] => (parseUint 32 (trim pid)).map fun pid => (trim ip, pid)
  | _ => none

/-- `load_pid_map`: the pids of the nodes by their addresses; `none` is a panic. -/
def loadPidMap (address : ActorPath → String) (lines : List String) (nodes : List ActorPath) :
    Option (HashMap ActorPath ℕ) := do
  let entries ← lines.mapM parseLine
  let ipPidMap : HashMap String ℕ := entries.foldl (fun ips e => ips.insert e.1 e.2) ∅
  nodes.foldlM (fun pids node => (ipPidMap.lookup (address node)).map fun pid => pids.insert node pid) ∅

/-- The pid map, if the feature `use_pid_map` is on and so the lines of the file are given. -/
def pidMapOf (address : ActorPath → String) (lines : Option (List String)) (available : List ActorPath) :
    Option (Option (HashMap ActorPath ℕ)) :=
  match lines with
  | some lines => (loadPidMap address lines available).map some
  | none => some none

/-- The participating nodes by their pids. The pid map is traversed in the given order. -/
def nodesId (pidMap : Option (HashMap ActorPath ℕ)) (order available : List ActorPath) (needed : ℕ) :
    HashMap ℕ ActorPath :=
  match pidMap with
  | some pidMap =>
    (order.filterMap fun node => (pidMap.lookup node).map (node, ·)).foldl (fun ids (node, pid) =>
      if pid ≤ needed % 2 ^ 32 then ids.insert pid node else ids) ∅
  | none => (available.take needed).zipIdx.foldl (fun ids (node, i) => ids.insert (i + 1) node) ∅

/-- `prepare_iteration` up to the `PartitioningActor`; `lines` are those of the file with the pids, if
there is a pid map. -/
def AtomicBroadcastMaster.prepareIteration (m : AtomicBroadcastMaster) (address : ActorPath → String)
    (lines : Option (List String)) (order available : List ActorPath) :
    Option (AtomicBroadcastMaster × PartitioningActor ActorPath) := do
  let m := { m with iterationId := m.iterationId + 1 }
  let needed ← m.numNodesNeeded
  let pidMap ← pidMapOf address lines available
  let ids := nodesId pidMap order available needed
  let nodes ← (List.range' 1 needed).mapM ids.lookup
  return (m, .new none m.iterationId nodes pidMap false)

/-! ### Which nodes are addressed -/

variable {address : ActorPath → String} {lines : List String} {order order' available nodes : List ActorPath}
  {pidMap : HashMap ActorPath ℕ} {needed : ℕ}

/-- The pid map has a pid for each available node, and no other. -/
theorem keys_loadPidMap (h : loadPidMap address lines available = some pidMap) :
    pidMap.keys = available.toFinset := by
  obtain ⟨entries, -, hfold⟩ := Option.bind_eq_some_iff.mp h
  have hkeys : ∀ (nodes : List ActorPath) (pids : HashMap ActorPath ℕ) (ips : HashMap String ℕ),
      nodes.foldlM (fun pids node => (ips.lookup (address node)).map fun pid => pids.insert node pid) pids =
        some pidMap → pidMap.keys = pids.keys ∪ nodes.toFinset := by
    intro nodes
    induction nodes with
    | nil =>
      intro pids ips hnil
      cases hnil
      simp
    | cons node nodes ih =>
      intro pids ips hcons
      rw [List.foldlM_cons] at hcons
      obtain ⟨pids', hnode, hrest⟩ := Option.bind_eq_some_iff.mp hcons
      obtain ⟨pid, -, rfl⟩ := Option.map_eq_some_iff.mp hnode
      rw [ih _ ips hrest, HashMap.keys_insert, List.toFinset_cons, Finset.insert_union,
        Finset.union_insert]
  rw [hkeys available ∅ _ hfold, Finmap.keys_empty, Finset.empty_union]

/-- A pid of the map leads back to its node. -/
theorem lookup_nodesId {i : ℕ} {node : ActorPath}
    (h : (nodesId (some pidMap) order available needed).lookup i = some node) :
    pidMap.lookup node = some i := by
  have hfold : ∀ (entries : List (ActorPath × ℕ)) (ids : HashMap ℕ ActorPath),
      (∀ e ∈ entries, pidMap.lookup e.1 = some e.2) →
      (∀ i node, ids.lookup i = some node → pidMap.lookup node = some i) →
      ∀ i node, (entries.foldl (fun ids (node, pid) =>
        if pid ≤ needed % 2 ^ 32 then ids.insert pid node else ids) ids).lookup i = some node →
      pidMap.lookup node = some i := by
    intro entries
    induction entries with
    | nil => exact fun ids _ hids => hids
    | cons e entries ih =>
      intro ids hentries hids
      refine ih _ (fun e' he' => hentries e' (List.mem_cons_of_mem e he')) fun i node hi => ?_
      have he := hentries e List.mem_cons_self
      dsimp only at hi
      split_ifs at hi
      · rw [HashMap.lookup_insert_ite] at hi
        split_ifs at hi with heq
        · cases hi
          rw [heq]
          exact he
        · exact hids i node hi
      · exact hids i node hi
  refine hfold _ ∅ (fun e he => ?_) (fun i node hi => by simp at hi) i node h
  obtain ⟨node', -, hpid⟩ := List.mem_filterMap.mp he
  obtain ⟨pid, hlookup, rfl⟩ := Option.map_eq_some_iff.mp hpid
  exact hlookup

/-- The pids of the participating nodes are those they were chosen by. -/
theorem map_lookup_nodes {pids : List ℕ} (h : List.Forall₂ (fun i node =>
      (nodesId (some pidMap) order available needed).lookup i = some node) pids nodes) :
    nodes.map pidMap.lookup = pids.map some := by
  induction h with
  | nil => rfl
  | cons hi _ ih => rw [List.map_cons, List.map_cons, lookup_nodesId hi, ih]

/-- The participating nodes are different available nodes. -/
theorem nodes_of_pidMap (hload : loadPidMap address lines available = some pidMap)
    (hnodes : (List.range' 1 needed).mapM (nodesId (some pidMap) order available needed).lookup =
      some nodes) : nodes.Nodup ∧ ∀ node ∈ nodes, node ∈ available := by
  have hall := forall₂_of_mapM hnodes
  constructor
  · have hnodup : (nodes.map pidMap.lookup).Nodup := by
      rw [map_lookup_nodes hall]
      exact (List.nodup_range' 1).map (Option.some_injective ℕ)
    exact hnodup.of_map _
  · intro node hnode
    obtain ⟨i, -, hi⟩ := mem_of_mapM hnodes hnode
    have hmem : node ∈ pidMap.keys := Finmap.mem_keys.mpr (HashMap.mem_of_lookup (lookup_nodesId hi))
    rw [keys_loadPidMap hload] at hmem
    exact List.mem_toFinset.mp hmem

/-- With a pid map the addressed nodes are all that are available, each once. -/
theorem addressed_pidMap {a : PartitioningActor ActorPath} (hmap : a.pidMap = some pidMap)
    (horder : HashMap.Enumerates order pidMap) : (a.addressed order).map Prod.fst = order := by
  unfold PartitioningActor.addressed
  rw [hmap]
  dsimp only
  have hmem : ∀ node ∈ order, ∃ pid, pidMap.lookup node = some pid := fun node hnode =>
    HashMap.mem_keys_iff.mp (horder.mem_keys node hnode)
  clear horder hmap
  induction order with
  | nil => rfl
  | cons node order ih =>
    obtain ⟨pid, hpid⟩ := hmem node List.mem_cons_self
    rw [List.filterMap_cons]
    simp only [hpid, Option.map_some, List.map_cons]
    rw [ih fun node' h' => hmem node' (List.mem_cons_of_mem node h')]

/-- Without one they are the participating nodes. -/
theorem addressed_nodes {a : PartitioningActor ActorPath} (hmap : a.pidMap = none) :
    (a.addressed order).map Prod.fst = a.nodes := by
  unfold PartitioningActor.addressed
  rw [hmap]
  exact List.zipIdx_map_fst 1 a.nodes

/-- The actor that `prepare_iteration` builds. -/
theorem prepareIteration_eq {m m' : AtomicBroadcastMaster} {lines : Option (List String)}
    {a : PartitioningActor ActorPath} (hneeded : m.numNodesNeeded = some needed)
    (h : m.prepareIteration address lines order available = some (m', a)) :
    ∃ pidMap nodes, a = .new none m'.iterationId nodes pidMap false ∧
      (List.range' 1 needed).mapM (nodesId pidMap order available needed).lookup = some nodes ∧
      ((∃ ls pids, lines = some ls ∧ loadPidMap address ls available = some pids ∧ pidMap = some pids) ∨
        (lines = none ∧ pidMap = none)) := by
  unfold AtomicBroadcastMaster.prepareIteration at h
  dsimp only at h
  rw [hneeded] at h
  obtain ⟨_, hsome, h⟩ := Option.bind_eq_some_iff.mp h
  cases hsome
  obtain ⟨pidMap, hmap, hrest⟩ := Option.bind_eq_some_iff.mp h
  obtain ⟨nodes, hnodes, heq⟩ := Option.bind_eq_some_iff.mp hrest
  cases heq
  refine ⟨pidMap, nodes, rfl, hnodes, ?_⟩
  cases lines with
  | none =>
    cases hmap
    exact Or.inr ⟨rfl, rfl⟩
  | some ls =>
    obtain ⟨pids, hpids, rfl⟩ := Option.map_eq_some_iff.mp hmap
    exact Or.inl ⟨ls, pids, rfl, hpids, rfl⟩

/-- **The exact condition for the preparation to wait for every node**: some node is needed and, with a
pid map, no more nodes are available than needed. -/
theorem preparesAll_iff {m m₁ m₂ : AtomicBroadcastMaster} {c : AtomicBroadcastRequest} {numClients : ℕ}
    {lines : Option (List String)} {a : PartitioningActor ActorPath} (hclients : numClients < 2 ^ 32)
    (hvalid : m.validateExperimentParams c numClients = (m₁, .ok ()))
    (hneeded : m₁.numNodesNeeded = some needed)
    (hprepare : m₁.prepareIteration address lines order available = some (m₂, a))
    (horder : ∀ pidMap, a.pidMap = some pidMap → HashMap.Enumerates order' pidMap)
    (initData : Option Bytes) :
    (a.receiveLocal order' (.prepare initData)).1.PreparesAll ((a.addressed order').map Prod.fst) ↔
      1 ≤ needed ∧ (lines.isSome → available.toFinset.card = needed) := by
  obtain ⟨needed', hneeded', hle⟩ := AtomicBroadcastMaster.numNodesNeeded_le hvalid
  obtain rfl : needed = needed' := Option.some.inj (hneeded.symm.trans hneeded')
  obtain ⟨pidMap, nodes, rfl, hnodes, hmap⟩ := prepareIteration_eq hneeded hprepare
  have hlength : nodes.length = needed := by
    have := (forall₂_of_mapM hnodes).length_eq
    rw [List.length_range'] at this
    exact this.symm
  have hn : nodes.length % 2 ^ 32 = needed := by rw [hlength]; exact Nat.mod_eq_of_lt (by omega)
  rw [PartitioningActor.preparesAll_iff_prefix rfl rfl]
  simp only [PartitioningActor.receiveLocal, PartitioningActor.new, hn]
  refine and_congr_right fun hpos => ?_
  rcases hmap with ⟨ls, pids, rfl, hload, rfl⟩ | ⟨rfl, rfl⟩
  · have horder' := horder pids rfl
    rw [addressed_pidMap rfl horder']
    obtain ⟨hnodup, hsub⟩ := nodes_of_pidMap hload hnodes
    have hset : order'.toFinset = available.toFinset := horder'.2.trans (keys_loadPidMap hload)
    have hcard : available.toFinset.card = order'.length := by
      rw [← hset, List.toFinset_card_of_nodup horder'.1]
    have hsub' : ∀ node ∈ nodes, node ∈ order' := fun node hnode => by
      rw [← List.mem_toFinset, hset]
      exact List.mem_toFinset.mpr (hsub node hnode)
    rw [hcard, ← hlength]
    rw [← hlength] at hpos
    constructor
    · rintro ⟨-, hall⟩ -
      exact PartitioningActor.length_eq_of_prefixes hpos hnodup horder'.1 hsub' hall
    · intro heq
      refine ⟨(heq rfl).ge, fun acks hperm pre hpre hlen => ?_⟩
      exact PartitioningActor.mem_prefix_of_length hsub' (heq rfl) hperm hpre hlen
  · rw [addressed_nodes rfl]
    dsimp only
    rw [← hlength]
    refine iff_of_true ⟨le_rfl, fun acks hperm pre hpre hlen => ?_⟩ (fun h => Bool.noConfusion h)
    exact PartitioningActor.mem_prefix_of_length (fun node hnode => hnode) rfl hperm hpre hlen

end Master

/-- A request for a number of nodes. -/
def plainRequest (n : ℕ) : AtomicBroadcastRequest :=
  ⟨"raft", n, 60, 500, "off", "none", "fully_connected", 5000⟩

/-- Two nodes, which are their own addresses, and the file with their pids. -/
def twoNodes : List String := ["10.0.0.1", "10.0.0.2"]

def twoLines : List String := ["10.0.0.1 | /home/a | 1", "10.0.0.2 | /home/b | 2"]

theorem twoNeeded_preparesAll : ∃ m₁ m₂ a,
    ({} : AtomicBroadcastMaster).validateExperimentParams (plainRequest 2) 2 = (m₁, .ok ()) ∧
    m₁.prepareIteration id (some twoLines) twoNodes twoNodes = some (m₂, a) ∧
    (a.receiveLocal twoNodes (.prepare none)).1.PreparesAll ((a.addressed twoNodes).map Prod.fst) := by
  have hvalid : ({} : AtomicBroadcastMaster).validateExperimentParams (plainRequest 2) 2 =
      (⟨some 2, none, some .fullyConnected, 0⟩, .ok ()) := rfl
  obtain ⟨m₂, a, hprepare⟩ : ∃ m₂ a, AtomicBroadcastMaster.prepareIteration
      ⟨some 2, none, some .fullyConnected, 0⟩ id (some twoLines) twoNodes twoNodes = some (m₂, a) :=
    ⟨_, _, rfl⟩
  refine ⟨_, m₂, a, hvalid, hprepare, ?_⟩
  refine (preparesAll_iff (by decide) hvalid rfl hprepare (fun pidMap hmap => ?_) none).mpr (by decide)
  obtain ⟨_, nodes, rfl, -, ⟨ls, pids, -, hload, rfl⟩ | ⟨hnone, -⟩⟩ := prepareIteration_eq rfl hprepare
  · cases hmap
    exact ⟨by decide, (keys_loadPidMap hload).symm⟩
  · cases hnone

/-- Two nodes are available and one is needed: the other one answers, and the preparation ends. -/
theorem other_node_ends_preparation : ∃ m₁ m₂ a t,
    ({} : AtomicBroadcastMaster).validateExperimentParams (plainRequest 1) 2 = (m₁, .ok ()) ∧
    m₁.prepareIteration id (some twoLines) twoNodes twoNodes = some (m₂, a) ∧
    (a.addressed twoNodes).map Prod.fst = twoNodes ∧
    a.answers.run (a.receiveLocal twoNodes (.prepare none)).1 ["10.0.0.2"] = some t ∧
    t.prepareLatch = 0 ∧ a.nodes = ["10.0.0.1"] :=
  ⟨_, _, _, _, rfl, rfl, rfl, rfl, rfl, rfl⟩

end OmniPaxosBench.Experiment
