import OmniPaxosBench.Experiment.Master
import Mathlib.Data.List.Range

/-! # The new configuration of a reconfiguration experiment

The leader computes the new configuration: it removes as many followers as there are new nodes, chosen
at random, or one fewer if it goes itself. The random numbers are those of an oracle `rng`, cut to the
range that is asked for; a range without a number is a panic. Removing works as long as there are
followers left, which the validation of the request does not check
(`newConfiguration_wellFormed_iff`). -/

namespace OmniPaxosBench.Experiment

open OmniPaxosBench.OmniPaxos

/-- The indices that are drawn while `k` of the nodes are removed; `none` if no node is left to draw. -/
def drawIndices (rng : ℕ → ℕ) : List ℕ → ℕ → Option (List ℕ)
  | _, 0 => some []
  | nodes, k + 1 =>
    if nodes.length = 0 then none
    else
      let rnd := rng k % nodes.length
      (drawIndices rng (nodes.eraseIdx rnd) k).map (rnd :: ·)

/-- `get_new_configuration` with the random numbers of `rng`; `none` is a panic. -/
def newConfiguration (rp : ReconfigurationProposal) (rng : ℕ → ℕ) (leaderPid : ℕ)
    (currentConfiguration : List ℕ) : Option (List ℕ) :=
  (drawIndices rng (currentConfiguration.filter (· ≠ leaderPid)) rp.numRemove).bind
    (rp.getNewConfiguration leaderPid currentConfiguration)

/-- **A well-formed new configuration**: `n` different pids, the new nodes among them, the leader just
if it stays, and the others from the current configuration. -/
structure WellFormed (rp : ReconfigurationProposal) (n leaderPid : ℕ) (currentConfiguration l : List ℕ) :
    Prop where
  length : l.length = n
  nodup : l.Nodup
  newNodes : ∀ pid ∈ rp.newNodes, pid ∈ l
  leader : leaderPid ∈ l ↔ rp.policy = .replaceFollower
  others : ∀ pid ∈ l, pid ∈ rp.newNodes ∨ pid ∈ currentConfiguration

/-! ### Removing followers -/

variable {rng : ℕ → ℕ} {nodes rnds rest : List ℕ} {k n leaderPid : ℕ} {rp : ReconfigurationProposal}
  {currentConfiguration l : List ℕ}

/-- The draws succeed just when there are enough nodes. -/
theorem drawIndices_isSome (rng : ℕ → ℕ) (nodes : List ℕ) (k : ℕ) :
    (drawIndices rng nodes k).isSome ↔ k ≤ nodes.length := by
  induction k generalizing nodes with
  | zero => simp [drawIndices]
  | succ k ih =>
    unfold drawIndices
    by_cases hlen : nodes.length = 0
    · simp [hlen]
    · have hpos : 0 < nodes.length := Nat.pos_of_ne_zero hlen
      have hrnd : rng k % nodes.length < nodes.length := Nat.mod_lt _ hpos
      have herase := List.length_eraseIdx_of_lt hrnd
      rw [if_neg hlen]
      dsimp only
      rw [Option.isSome_map, ih, herase]
      omega

/-- What is left is a part of the nodes, in their order. -/
theorem removeAll_drawIndices (h : drawIndices rng nodes k = some rnds) :
    rnds.length = k ∧ ∃ rest, removeAll nodes rnds = some rest ∧ rest.Sublist nodes ∧
      rest.length + k = nodes.length := by
  induction k generalizing nodes rnds with
  | zero =>
    cases h
    exact ⟨rfl, nodes, rfl, List.Sublist.refl _, rfl⟩
  | succ k ih =>
    unfold drawIndices at h
    split_ifs at h with hlen
    obtain ⟨rs, hrs, rfl⟩ := Option.map_eq_some_iff.mp h
    have hrnd : rng k % nodes.length < nodes.length := Nat.mod_lt _ (Nat.pos_of_ne_zero hlen)
    have herase := List.length_eraseIdx_of_lt hrnd
    obtain ⟨hlength, rest, hrest, hsub, hcount⟩ := ih hrs
    refine ⟨by rw [List.length_cons, hlength], rest, ?_, hsub.trans (List.eraseIdx_sublist _ _), ?_⟩
    · rw [removeAll, if_pos hrnd]
      exact hrest
    · omega

theorem numRemove_replaceFollower (newNodes : List ℕ) :
    ReconfigurationProposal.numRemove ⟨.replaceFollower, newNodes⟩ = newNodes.length := rfl

/-- One fewer, as the leader goes; a length fits into a machine word. -/
theorem numRemove_replaceLeader {newNodes : List ℕ} (hpos : 1 ≤ newNodes.length) (hlt : newNodes.length < 2 ^ 64) :
    ReconfigurationProposal.numRemove ⟨.replaceLeader, newNodes⟩ = newNodes.length - 1 := by
  change (newNodes.length + 2 ^ 64 - 1) % 2 ^ 64 = _
  omega

/-- The new configuration, and when there is none. -/
theorem newConfiguration_eq (rp : ReconfigurationProposal) (rng : ℕ → ℕ) (leaderPid : ℕ)
    (currentConfiguration : List ℕ) : newConfiguration rp rng leaderPid currentConfiguration = none ∧
      (currentConfiguration.filter (· ≠ leaderPid)).length < rp.numRemove ∨
    ∃ rest, rest.Sublist (currentConfiguration.filter (· ≠ leaderPid)) ∧
      rest.length + rp.numRemove = (currentConfiguration.filter (· ≠ leaderPid)).length ∧
      newConfiguration rp rng leaderPid currentConfiguration = some (match rp.policy with
        | .replaceFollower => rest ++ rp.newNodes ++ [leaderPid]
        | .replaceLeader => rest ++ rp.newNodes) := by
  cases hdraw : drawIndices rng (currentConfiguration.filter (· ≠ leaderPid)) rp.numRemove with
  | none =>
    left
    have hnone := drawIndices_isSome rng (currentConfiguration.filter (· ≠ leaderPid)) rp.numRemove
    rw [hdraw] at hnone
    unfold newConfiguration
    rw [hdraw]
    refine ⟨rfl, not_le.mp fun hle => ?_⟩
    exact Bool.noConfusion (hnone.mpr hle)
  | some rnds =>
    right
    obtain ⟨hlength, rest, hrest, hsub, hcount⟩ := removeAll_drawIndices hdraw
    refine ⟨rest, hsub, hcount, ?_⟩
    unfold newConfiguration
    rw [hdraw, Option.bind_some]
    obtain ⟨policy, newNodes⟩ := rp
    cases policy with
    | replaceLeader => exact (if_pos hlength).trans (congrArg (Option.map _) hrest)
    | replaceFollower => exact (if_pos hlength).trans (congrArg (Option.map _) hrest)

/-! ### The nodes of a request -/

/-- The new nodes of a reconfiguration of `n` nodes: at least one and at most `n`, with pids above `n`. -/
theorem getReconfigNodes_some {s : String} {newNodes : List ℕ} (hn : 1 ≤ n)
    (h : getReconfigNodes s n = .ok (some newNodes)) :
    1 ≤ newNodes.length ∧ newNodes.length ≤ n ∧ newNodes.Nodup ∧ ∀ pid ∈ newNodes, n < pid := by
  unfold getReconfigNodes at h
  dsimp only at h
  split_ifs at h
  · cases h
  · cases h
    exact ⟨by simp, by simpa using hn, by simp, by simp⟩
  · cases h
    refine ⟨by simp, ?_, List.nodup_range', fun pid hpid => ?_⟩
    · rw [List.length_range']
      omega
    · have := List.mem_range'_1.mp hpid
      omega

variable (hcur : currentConfiguration.Perm (List.range' 1 n)) (hleader : leaderPid ∈ currentConfiguration)

include hcur in
theorem nodup_current : currentConfiguration.Nodup := hcur.nodup_iff.mpr List.nodup_range'

include hcur in
theorem le_of_mem_current {pid : ℕ} (h : pid ∈ currentConfiguration) : pid ≤ n := by
  have := List.mem_range'_1.mp (hcur.mem_iff.mp h)
  omega

include hcur hleader in
theorem length_followers : (currentConfiguration.filter (· ≠ leaderPid)).length + 1 = n := by
  have hlen : currentConfiguration.length = n := by rw [hcur.length_eq, List.length_range']
  have herase := List.length_erase_add_one hleader
  rw [(nodup_current hcur).erase_eq_filter] at herase
  have heq : currentConfiguration.filter (· != leaderPid) = currentConfiguration.filter (· ≠ leaderPid) :=
    List.filter_congr fun pid _ => by simp [bne, beq_eq_decide]
  rw [heq] at herase
  omega

/-! ### Accepted requests -/

include hcur hleader in
/-- With enough followers the new configuration is well formed. -/
theorem wellFormed_of_newConfiguration (hpos : 1 ≤ rp.newNodes.length) (hle : rp.newNodes.length ≤ n)
    (hnodup : rp.newNodes.Nodup) (habove : ∀ pid ∈ rp.newNodes, n < pid) (hbound : n < 2 ^ 32)
    (hrest : rest.Sublist (currentConfiguration.filter (· ≠ leaderPid)))
    (hcount : rest.length + rp.numRemove = (currentConfiguration.filter (· ≠ leaderPid)).length) :
    WellFormed rp n leaderPid currentConfiguration (match rp.policy with
      | .replaceFollower => rest ++ rp.newNodes ++ [leaderPid]
      | .replaceLeader => rest ++ rp.newNodes) := by
  have hfollowers := length_followers hcur hleader
  have hleaderLe := le_of_mem_current hcur hleader
  have hsub : ∀ pid ∈ rest, pid ∈ currentConfiguration ∧ pid ≠ leaderPid := fun pid hpid => by
    simpa using hrest.subset hpid
  have hdisj : rest.Disjoint rp.newNodes := fun pid hpid hnew => by
    have h1 := le_of_mem_current hcur (hsub pid hpid).1
    have h2 := habove pid hnew
    omega
  have hold : leaderPid ∉ rp.newNodes := fun hmem => by
    have := habove leaderPid hmem
    omega
  have hgone : leaderPid ∉ rest := fun hmem => (hsub leaderPid hmem).2 rfl
  have hnd : (rest ++ rp.newNodes).Nodup :=
    List.Nodup.append (hrest.nodup ((nodup_current hcur).filter _)) hnodup hdisj
  obtain ⟨policy, newNodes⟩ := rp
  dsimp only at *
  cases policy with
  | replaceFollower =>
    rw [numRemove_replaceFollower] at hcount
    refine ⟨?_, ?_, fun pid hpid => by simp [hpid], by simp, fun pid hpid => ?_⟩
    · simp only [List.length_append, List.length_singleton]
      omega
    · refine List.Nodup.append hnd (List.nodup_singleton _) ?_
      rw [List.disjoint_singleton]
      simp [hgone, hold]
    · rcases List.mem_append.mp hpid with hpid | hpid
      · rcases List.mem_append.mp hpid with hpid | hpid
        · exact Or.inr (hsub pid hpid).1
        · exact Or.inl hpid
      · rw [List.mem_singleton.mp hpid]
        exact Or.inr hleader
  | replaceLeader =>
    rw [numRemove_replaceLeader hpos (by omega)] at hcount
    refine ⟨?_, hnd, fun pid hpid => by simp [hpid], by simp [hgone, hold], fun pid hpid => ?_⟩
    · simp only [List.length_append]
      omega
    · rcases List.mem_append.mp hpid with hpid | hpid
      · exact Or.inr (hsub pid hpid).1
      · exact Or.inl hpid

/-- The new nodes that the master has stored are those of the request. -/
theorem getReconfigNodes_of_valid {m m' : AtomicBroadcastMaster} {c : AtomicBroadcastRequest}
    {numClients : ℕ} {newNodes : List ℕ} {policy : ReconfigurationPolicy}
    (hvalid : m.validateExperimentParams c numClients = (m', .ok ()))
    (hreconfig : toLowercase c.reconfiguration = "single" ∨ toLowercase c.reconfiguration = "majority")
    (hstored : m'.reconfiguration = some (policy, newNodes)) :
    getReconfigNodes c.reconfiguration c.numberOfNodes = .ok (some newNodes) := by
  obtain ⟨-, -, m₁, scenario, hm₁, -, rfl⟩ := AtomicBroadcastMaster.validateExperimentParams_ok hvalid
  rcases AtomicBroadcastMaster.validateReconfiguration_ok hm₁ with ⟨hoff, -⟩ | ⟨-, hnodes⟩
  · rw [hoff] at hreconfig
    exact absurd hreconfig (by decide)
  · obtain ⟨policy', reconfig, -, hreconf, -, rfl⟩ := AtomicBroadcastMaster.validateReconfigNodes_ok hnodes
    obtain ⟨nodes, rfl, heq⟩ := Option.map_eq_some_iff.mp hstored
    cases heq
    exact hreconf

/-- **The exact condition for a well-formed new configuration**: an accepted reconfiguration gets one,
whatever nodes are drawn, just if the leader is replaced or there are fewer new nodes than nodes. -/
theorem newConfiguration_wellFormed_iff {m m' : AtomicBroadcastMaster} {c : AtomicBroadcastRequest}
    {numClients : ℕ} {newNodes : List ℕ} {policy : ReconfigurationPolicy} (hclients : numClients < 2 ^ 32)
    (hvalid : m.validateExperimentParams c numClients = (m', .ok ()))
    (hreconfig : toLowercase c.reconfiguration = "single" ∨ toLowercase c.reconfiguration = "majority")
    (hn : 1 ≤ c.numberOfNodes) (hstored : m'.reconfiguration = some (policy, newNodes))
    (hcur : currentConfiguration.Perm (List.range' 1 c.numberOfNodes))
    (hleader : leaderPid ∈ currentConfiguration) (rng : ℕ → ℕ) :
    getReconfigNodes c.reconfiguration c.numberOfNodes = .ok (some newNodes) ∧
    ((∃ l, newConfiguration ⟨policy, newNodes⟩ rng leaderPid currentConfiguration = some l ∧
      WellFormed ⟨policy, newNodes⟩ c.numberOfNodes leaderPid currentConfiguration l) ↔
    policy = .replaceLeader ∨ newNodes.length < c.numberOfNodes) := by
  have hnew := getReconfigNodes_of_valid hvalid hreconfig hstored
  refine ⟨hnew, ?_⟩
  obtain ⟨hpos, hle, hnodup, habove⟩ := getReconfigNodes_some hn hnew
  have hbound : c.numberOfNodes < 2 ^ 32 :=
    (AtomicBroadcastMaster.validateExperimentParams_ok hvalid).1.trans_lt hclients
  have hfollowers := length_followers hcur hleader
  have henough : ReconfigurationProposal.numRemove ⟨policy, newNodes⟩ + 1 ≤ c.numberOfNodes ↔
      policy = .replaceLeader ∨ newNodes.length < c.numberOfNodes := by
    cases policy with
    | replaceLeader =>
      rw [numRemove_replaceLeader hpos (by omega)]
      exact iff_of_true (by omega) (Or.inl rfl)
    | replaceFollower => exact ⟨Or.inr, fun h => h.resolve_left (by decide)⟩
  rw [← henough]
  rcases newConfiguration_eq ⟨policy, newNodes⟩ rng leaderPid currentConfiguration with ⟨hnone, hlt⟩ |
    ⟨rest, hsub, hcount, hsome⟩
  · rw [hnone]
    refine iff_of_false ?_ (by omega)
    rintro ⟨l, hl, -⟩
    cases hl
  · refine iff_of_true ⟨_, hsome, ?_⟩ (by omega)
    exact wellFormed_of_newConfiguration hcur hleader hpos hle hnodup habove hbound hsub hcount

/-- A request for three nodes whose leader is replaced. -/
def replaceLeaderRequest : AtomicBroadcastRequest :=
  ⟨"Paxos", 3, 60, 500, "majority", "Replace-Leader", "fully_connected", 5000⟩

/-- A request for one node whose only follower is to be replaced. -/
def noFollowerRequest : AtomicBroadcastRequest :=
  ⟨"paxos", 1, 60, 500, "single", "replace-follower", "fully_connected", 5000⟩

theorem replaceLeader_wellFormed :
    ∃ l, newConfiguration ⟨.replaceLeader, [4, 5]⟩ (fun k => k) 2 [3, 1, 2] = some l ∧
      WellFormed ⟨.replaceLeader, [4, 5]⟩ 3 2 [3, 1, 2] l := by
  have hvalid : ({} : AtomicBroadcastMaster).validateExperimentParams replaceLeaderRequest 5 =
      (⟨some 5, some (.replaceLeader, [4, 5]), some .fullyConnected, 0⟩, .ok ()) := by decide
  have hcur : [3, 1, 2].Perm (List.range' 1 replaceLeaderRequest.numberOfNodes) := by decide
  exact (newConfiguration_wellFormed_iff (by decide) hvalid (by decide) (by decide) rfl hcur (by decide)
    _).2.mpr (Or.inl rfl)

theorem noFollower_panics :
    ({} : AtomicBroadcastMaster).validateExperimentParams noFollowerRequest 2 =
        ({ numNodesNeeded := some 2, reconfiguration := some (.replaceFollower, [2]),
           networkScenario := some .fullyConnected }, .ok ()) ∧
      newConfiguration ⟨.replaceFollower, [2]⟩ (fun k => k) 1 [1] = none := by decide

end OmniPaxosBench.Experiment
