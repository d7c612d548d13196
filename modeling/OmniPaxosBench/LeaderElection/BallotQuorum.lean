import Mathlib.Data.Finset.Card
import OmniPaxosBench.LeaderElection.BallotLeaderComp
import OmniPaxosBench.Lib.Machine

/-! # Ballot leader election: quorums on the two construction paths

The threshold of the quorum check is set in two places. `BallotLeaderComp::with` counts the node
itself when it halves; `set_initial_replica_state_after_reconfig` halves the number of peers. For an
odd number of nodes the two agree. For an even number the second is one lower, and two halves of the
configuration can both pass the check. -/

namespace OmniPaxosBench.LeaderElection

open OmniPaxosBench.Lib BallotLeaderComp

/-- Where the threshold and the peers of a node are set. -/
inductive Path
  | byWith
  | afterReconfig
  deriving DecidableEq, Repr

/-- Node `pid` of a configuration, with the other nodes as its peers. After a reconfiguration the
node was created without peers. -/
def Path.ble (path : Path) (config : List ℕ) (pid : ℕ) : BallotLeaderComp :=
  let peers := config.filter (· ≠ pid)
  match path with
  | .byWith => new peers pid none
  | .afterReconfig => (new [] pid none).setPeersAfterReconfig peers

/-- The node on its own, started, under any events. -/
def Path.machine (path : Path) (config : List ℕ) (pid : ℕ) : Machine BallotLeaderComp BleEvent where
  init := (path.ble config pid).onStart.1
  step c e := (c.handle e).map (·.1)

namespace BallotLeaderComp

/-- The nodes whose replies of the round are in. -/
def repliers (c : BallotLeaderComp) : List ℕ := c.ballots.map (·.1.pid)

/-- The replies are from distinct peers. -/
def FromPeers (c : BallotLeaderComp) : Prop := c.repliers.Nodup ∧ ∀ k ∈ c.repliers, k ∈ c.peers

end BallotLeaderComp

/-- Whenever two nodes of the configuration pass the quorum check with replies from distinct peers,
the nodes each has counted have one in common. -/
def Intersecting (config : List ℕ) (path path' : Path) : Prop :=
  ∀ i ∈ config, ∀ j ∈ config, ∀ c d, (path.machine config i).Reachable c →
    (path'.machine config j).Reachable d → c.FromPeers → d.FromPeers → c.HasQuorum → d.HasQuorum →
    ∃ k, k ∈ i :: c.repliers ∧ k ∈ j :: d.repliers

/-! ### The threshold does not change -/

theorem newHbRound_frame (c : BallotLeaderComp) :
    c.newHbRound.1.majority = c.majority ∧ c.newHbRound.1.peers = c.peers := ⟨rfl, rfl⟩

theorem checkLeader_frame (c : BallotLeaderComp) :
    c.checkLeader.1.majority = c.majority ∧ c.checkLeader.1.peers = c.peers := by
  unfold checkLeader
  dsimp only
  split_ifs <;> exact ⟨rfl, rfl⟩

theorem hbTimeout_frame (c : BallotLeaderComp) :
    c.hbTimeout.1.majority = c.majority ∧ c.hbTimeout.1.peers = c.peers := by
  unfold hbTimeout
  split_ifs
  · exact checkLeader_frame _
  · exact newHbRound_frame _

theorem handleStop_frame (c : BallotLeaderComp) (pid : ℕ) :
    (c.handleStop pid).1.majority = c.majority ∧ (c.handleStop pid).1.peers = c.peers := by
  have hstop : ∀ d : BallotLeaderComp,
      d.stopTimer.majority = d.majority ∧ d.stopTimer.peers = d.peers := by
    intro d
    unfold stopTimer
    split <;> exact ⟨rfl, rfl⟩
  have h := hstop { c with disconnectedPeers := [] }
  unfold handleStop
  dsimp only
  split_ifs <;> exact h

theorem handle_frame {c c' : BallotLeaderComp} {e : BleEvent} {out : List BleOut}
    (h : c.handle e = some (c', out)) : c'.majority = c.majority ∧ c'.peers = c.peers := by
  cases e with
  | timeout id =>
    obtain ⟨⟨_, timers⟩, -, heq⟩ := Option.map_eq_some_iff.mp h
    have hframe := hbTimeout_frame { c with timers := timers }
    dsimp only at heq
    rw [heq] at hframe
    exact hframe
  | request sender round =>
    have heq := Option.some.inj h
    unfold handleRequest at heq
    split_ifs at heq <;> (cases heq; exact ⟨rfl, rfl⟩)
  | reply m =>
    cases h
    unfold handleReply
    split_ifs <;> exact ⟨rfl, rfl⟩
  | stop pid =>
    have hframe := handleStop_frame c pid
    rw [Option.some.inj h] at hframe
    exact hframe
  | peerStop pid =>
    simp only [handle, handlePeerStop] at h
    split_ifs at h <;> (cases h; exact ⟨rfl, rfl⟩)
  | partition e =>
    obtain ⟨part, -, heq⟩ := Option.map_eq_some_iff.mp h
    cases heq
    exact ⟨rfl, rfl⟩

theorem reachable_frame {path : Path} {config : List ℕ} {i : ℕ} {c : BallotLeaderComp}
    (h : (path.machine config i).Reachable c) : c.majority = (path.ble config i).majority ∧
      c.peers = config.filter (· ≠ i) := by
  refine h.invariant (P := fun c => c.majority = (path.ble config i).majority ∧
    c.peers = config.filter (· ≠ i)) ?_ ?_
  · refine ⟨rfl, ?_⟩
    cases path <;> rfl
  · intro s e t _ ih hstep
    obtain ⟨⟨t', out⟩, ht, rfl⟩ := Option.map_eq_some_iff.mp hstep
    obtain ⟨h1, h2⟩ := handle_frame ht
    exact ⟨h1.trans ih.1, h2.trans ih.2⟩

/-- The threshold on each path, for a configuration of `config.length` nodes. -/
theorem majority_ble {path : Path} {config : List ℕ} {i : ℕ} (hnodup : config.Nodup) (hi : i ∈ config) :
    (path.ble config i).majority = match path with
      | .byWith => config.length / 2 + 1
      | .afterReconfig => (config.length - 1) / 2 + 1 := by
  have hlen : (config.filter (· ≠ i)).length + 1 = config.length := by
    have herase := List.length_erase_of_mem hi
    rw [hnodup.erase_eq_filter] at herase
    have hpos := List.length_pos_of_mem hi
    have hbne : config.filter (· != i) = config.filter (· ≠ i) := by
      congr 1
      funext x
      by_cases hx : x = i <;> simp [hx]
    rw [hbne] at herase
    omega
  cases path with
  | byWith =>
    show ((config.filter (· ≠ i)).length + 1) / 2 + 1 = config.length / 2 + 1
    rw [hlen]
  | afterReconfig =>
    show (config.filter (· ≠ i)).length / 2 + 1 = (config.length - 1) / 2 + 1
    rw [← hlen, Nat.add_sub_cancel]

/-! ### Quorums that meet -/

/-- The nodes counted by a node with a quorum: as many as the threshold, all of the configuration. -/
theorem counted {path : Path} {config : List ℕ} {i : ℕ} {c : BallotLeaderComp} (hi : i ∈ config)
    (hc : (path.machine config i).Reachable c) (hp : c.FromPeers) (hq : c.HasQuorum) :
    (i :: c.repliers).toFinset ⊆ config.toFinset ∧
      (path.ble config i).majority ≤ (i :: c.repliers).toFinset.card := by
  obtain ⟨hmaj, hpeers⟩ := reachable_frame hc
  have hmem : ∀ k ∈ c.repliers, k ∈ config ∧ k ≠ i := by
    intro k hk
    have hk' := hp.2 k hk
    rw [hpeers, List.mem_filter] at hk'
    exact ⟨hk'.1, of_decide_eq_true hk'.2⟩
  have hnodup : (i :: c.repliers).Nodup := by
    refine List.nodup_cons.mpr ⟨fun h => ?_, hp.1⟩
    exact (hmem i h).2 rfl
  constructor
  · intro k hk
    rw [List.mem_toFinset, List.mem_cons] at hk
    rw [List.mem_toFinset]
    rcases hk with rfl | hk
    · exact hi
    · exact (hmem k hk).1
  · rw [List.toFinset_card_of_nodup hnodup, ← hmaj, List.length_cons, repliers, List.length_map]
    exact hq

theorem intersecting_of_lt {config : List ℕ} {path path' : Path} (hnodup : config.Nodup)
    (hlt : ∀ i ∈ config, ∀ j ∈ config,
      config.length < (path.ble config i).majority + (path'.ble config j).majority) :
    Intersecting config path path' := by
  intro i hi j hj c d hc hd hcp hdp hcq hdq
  obtain ⟨hsub, hcard⟩ := counted hi hc hcp hcq
  obtain ⟨hsub', hcard'⟩ := counted hj hd hdp hdq
  have hsize : config.toFinset.card = config.length := List.toFinset_card_of_nodup hnodup
  have := hlt i hi j hj
  obtain ⟨k, hk⟩ := Finset.inter_nonempty_of_card_lt_card_add_card hsub hsub' (by omega)
  rw [Finset.mem_inter, List.mem_toFinset, List.mem_toFinset] at hk
  exact ⟨k, hk⟩

/-! ### Quorums that do not meet -/

/-- In its first round a node can get the replies of any of the others. -/
theorem replies_reachable (path : Path) (config : List ℕ) (i : ℕ) (ks : List ℕ) :
    ∃ c, (path.machine config i).Reachable c ∧ c.repliers = ks ∧ c.stopped = false ∧
      c.disconnectedPeers = [] ∧ c.hbRound = 1 := by
  induction ks using List.reverseRecOn with
  | nil =>
    refine ⟨_, Machine.Reachable.init, ?_⟩
    cases path <;> exact ⟨rfl, rfl, rfl, rfl⟩
  | append_singleton ks k ih =>
    obtain ⟨c, hc, hks, hstop, hdis, hround⟩ := ih
    refine ⟨{ c with ballots := c.ballots ++ [(⟨0, k⟩, true)] }, ?_, ?_, hstop, hdis, hround⟩
    · refine hc.step (e := .reply ⟨1, ⟨0, k⟩, true⟩) ?_
      simp [Path.machine, handle, handleReply, hstop, hdis, hround]
    · unfold repliers at hks ⊢
      rw [List.map_append, hks]; rfl

/-- A node `i` and enough other nodes of the configuration make a quorum. -/
theorem quorum_of_length {path : Path} {config ks : List ℕ} {i : ℕ} (hnodup : (i :: ks).Nodup)
    (hmem : ∀ k ∈ ks, k ∈ config) (hlen : (path.ble config i).majority ≤ ks.length + 1) :
    ∃ c, (path.machine config i).Reachable c ∧ c.FromPeers ∧ c.HasQuorum ∧ c.repliers = ks := by
  obtain ⟨c, hc, hks, -⟩ := replies_reachable path config i ks
  obtain ⟨hmaj, hpeers⟩ := reachable_frame hc
  obtain ⟨hi, hnodup⟩ := List.nodup_cons.mp hnodup
  refine ⟨c, hc, ⟨hks ▸ hnodup, ?_⟩, ?_, hks⟩
  · intro k hk
    rw [hks] at hk
    rw [hpeers, List.mem_filter]
    exact ⟨hmem k hk, decide_eq_true fun h => hi (h ▸ hk)⟩
  · have hsize : c.ballots.length = ks.length := by rw [← hks, repliers, List.length_map]
    unfold HasQuorum
    rw [hmaj, hsize]
    exact hlen

/-- An even number of nodes has two halves. -/
theorem exists_halves {config : List ℕ} (hne : config ≠ []) (heven : config.length % 2 = 0) :
    ∃ i ks j ls, config = (i :: ks) ++ (j :: ls) ∧ 2 * (ks.length + 1) = config.length ∧
      2 * (ls.length + 1) = config.length := by
  have hpos := List.length_pos_of_ne_nil hne
  obtain ⟨half, hhalf⟩ : ∃ half, config.length = 2 * half := ⟨config.length / 2, by omega⟩
  have hsplit := List.take_append_drop half config
  have hltake : (config.take half).length = half := by
    rw [List.length_take]
    omega
  have hldrop : (config.drop half).length = half := by
    rw [List.length_drop]
    omega
  cases hl : config.take half with
  | nil => rw [hl, List.length_nil] at hltake; omega
  | cons i ks =>
    cases hr : config.drop half with
    | nil => rw [hr, List.length_nil] at hldrop; omega
    | cons j ls =>
      rw [hl, List.length_cons] at hltake
      rw [hr, List.length_cons] at hldrop
      rw [hl, hr] at hsplit
      exact ⟨i, ks, j, ls, hsplit.symm, by omega, by omega⟩

/-- After a reconfiguration each half of an even number of nodes is a quorum. -/
theorem not_intersecting_of_even {config : List ℕ} (hnodup : config.Nodup) (hne : config ≠ [])
    (heven : config.length % 2 = 0) : ¬ Intersecting config .afterReconfig .afterReconfig := by
  intro h
  obtain ⟨i, ks, j, ls, hsplit, hks, hls⟩ := exists_halves hne heven
  have hmaj : ∀ {k}, k ∈ config →
      (Path.afterReconfig.ble config k).majority = (config.length - 1) / 2 + 1 :=
    fun hk => majority_ble hnodup hk
  have hmeml : ∀ k ∈ i :: ks, k ∈ config := fun k hk => by
    rw [hsplit]; exact List.mem_append_left _ hk
  have hmemr : ∀ k ∈ j :: ls, k ∈ config := fun k hk => by
    rw [hsplit]; exact List.mem_append_right _ hk
  have hi := hmeml i (List.mem_cons_self ..)
  have hj := hmemr j (List.mem_cons_self ..)
  have hparts := hnodup
  rw [hsplit, List.nodup_append] at hparts
  obtain ⟨hnl, hnr, hdisj⟩ := hparts
  obtain ⟨c, hc, hcp, hcq, hcr⟩ := quorum_of_length hnl
    (fun k hk => hmeml k (List.mem_cons_of_mem _ hk)) (by rw [hmaj hi]; omega)
  obtain ⟨d, hd, hdp, hdq, hdr⟩ := quorum_of_length hnr
    (fun k hk => hmemr k (List.mem_cons_of_mem _ hk)) (by rw [hmaj hj]; omega)
  obtain ⟨k, hk, hk'⟩ := h i hi j hj c d hc hd hcp hdp hcq hdq
  rw [hcr] at hk
  rw [hdr] at hk'
  exact hdisj k hk k hk' rfl

/-- **Quorum intersection** holds exactly if one of the two nodes was built by `with`, or the number
of nodes is odd. -/
theorem intersecting_iff {config : List ℕ} (hnodup : config.Nodup) (hne : config ≠ [])
    (path path' : Path) : Intersecting config path path' ↔
      path = .byWith ∨ path' = .byWith ∨ config.length % 2 = 1 := by
  constructor
  · intro h
    by_contra hcon
    push Not at hcon
    obtain ⟨hp, hp', hodd⟩ := hcon
    obtain rfl : path = .afterReconfig := by cases path <;> simp_all
    obtain rfl : path' = .afterReconfig := by cases path' <;> simp_all
    have heven : config.length % 2 = 0 := by omega
    exact not_intersecting_of_even hnodup hne heven h
  · intro h
    refine intersecting_of_lt hnodup fun i hi j hj => ?_
    rw [majority_ble hnodup hi, majority_ble hnodup hj]
    cases path <;> cases path' <;> simp only [reduceCtorEq, or_self, false_or, true_or] at h ⊢ <;> omega

/-- Two nodes that were built after a reconfiguration each pass the check alone. -/
theorem pair_not_intersecting : ¬ Intersecting [1, 2] .afterReconfig .afterReconfig := by
  intro h
  obtain ⟨k, hk, hk'⟩ := h 1 (by decide) 2 (by decide) _ _ Machine.Reachable.init Machine.Reachable.init
    ⟨by decide, by decide⟩ ⟨by decide, by decide⟩ (by decide) (by decide)
  have h1 : k ∈ [1] := hk
  have h2 : k ∈ [2] := hk'
  rw [List.mem_singleton] at h1 h2
  omega

theorem three_intersecting : [1, 2, 3].Nodup ∧ Intersecting [1, 2, 3] .afterReconfig .afterReconfig :=
  ⟨by decide, (intersecting_iff (by decide) (by decide) _ _).mpr (Or.inr (Or.inr rfl))⟩

end OmniPaxosBench.LeaderElection
