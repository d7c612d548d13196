import OmniPaxosBench.Experiment.PartitionScenario
import OmniPaxosBench.LeaderElection.BallotConvergence

/-! # The leader election during a partition

In the quorum loss and in the constrained election one node is left with a majority, the first follower.
Ballot leader election over the links that the partition leaves makes it the leader: five laps after the
partition is in place no other node stands for election any more, and the first follower follows a ballot
of its own, above all it has indicated before, to the end of the partition (`hub_takes_over`). -/

namespace OmniPaxosBench.Experiment.PartitionRun

open OmniPaxosBench.Lib OmniPaxosBench.LeaderElection OmniPaxosBench.LeaderElection.Election

variable {c : Client} {p : PartitionRun} {S : Setup} {s t : Election}

/-- The nodes with a majority, as the election counts it. -/
theorem quorumConnected_iff (hnodup : c.nodes.Nodup) (hclean : pending c.timers = [])
    (h : (partitionMachine c).ReachableUnder BeforeRecovery p) (hp : p.Settled)
    (hscenario : LeavesOne c.networkScenario) (hfour : 4 ≤ c.nodes.length) (hnodes : S.nodes.Perm c.nodes)
    {i : ℕ} (hi : i ∈ c.nodes) : QuorumConnected S (links c.nodes p) i ↔ i = firstFollower c := by
  unfold QuorumConnected
  rw [hnodes.length_eq]
  exact majority_iff hnodup hclean h hp hscenario hfour hi

/-- The first follower can take nobody but itself for the leader. -/
theorem eligible_iff (hnodup : c.nodes.Nodup) (hclean : pending c.timers = [])
    (h : (partitionMachine c).ReachableUnder BeforeRecovery p) (hp : p.Settled)
    (hscenario : LeavesOne c.networkScenario) (hfour : 4 ≤ c.nodes.length) (hnodes : S.nodes.Perm c.nodes)
    (j : ℕ) : Eligible S (links c.nodes p) (firstFollower c) j ↔ j = firstFollower c := by
  refine ⟨fun helig => ?_, Or.inl⟩
  rcases helig with hj | ⟨hj, hquorum⟩
  · exact hj
  · exact (quorumConnected_iff hnodup hclean h hp hscenario hfour hnodes (mem_links.mp hj).1).mp hquorum

/-- **The first follower takes over.** Once the partition is in place, five laps of heartbeat rounds over
its links make the first follower the leader of its own ballot, however the election stood before; as long
as the links stay so, it remains the leader, and no node indicates another one. -/
theorem hub_takes_over (hnodup : c.nodes.Nodup) (hclean : pending c.timers = [])
    (h : (partitionMachine c).ReachableUnder BeforeRecovery p) (hp : p.Settled)
    (hscenario : LeavesOne c.networkScenario) (hfour : 4 ≤ c.nodes.length) (hnodes : S.nodes.Perm c.nodes)
    (hs : (machine S).ReachableUnder (Unwrapped S) s) {laps : List (List (ℕ × BleEvent))}
    (hlen : laps.length = 5) (hlap : ∀ lap ∈ laps, Machine.Lap S.nodes Beats lap)
    (hok : (machine S).AllSteps (Steady S (links c.nodes p)) s laps.flatten)
    (hrun : (machine S).run s laps.flatten = some t) :
    (t.node (firstFollower c)).leader = some (t.node (firstFollower c)).currentBallot ∧
    (t.node (firstFollower c)).currentBallot.pid = firstFollower c ∧
    (∀ l ∈ t.indications (firstFollower c), l.round ≤ (t.node (firstFollower c)).currentBallot) ∧
    (∀ i ∈ S.nodes, (t.node i).candidate = decide (i = firstFollower c)) ∧
    ∀ es u, (machine S).AllSteps (Steady S (links c.nodes p)) t es → (machine S).run t es = some u →
      ∀ i ∈ S.nodes, u.outcome i = t.outcome i := by
  have hmem : firstFollower c ∈ c.nodes := (firstFollower_of_two hnodup (by omega)).1
  have hfirst : firstFollower c ∈ S.nodes := hnodes.mem_iff.mpr hmem
  have hS : S.nodes.Nodup := hnodes.nodup_iff.mpr hnodup
  have hquorum : ∀ i ∈ c.nodes, QuorumConnected S (links c.nodes p) i ↔ i = firstFollower c :=
    fun i hi => quorumConnected_iff hnodup hclean h hp hscenario hfour hnodes hi
  have htop : Above5 S (links c.nodes p) t := (stairs hS).reach kept_base hs hlen hlap hok hrun
  have hinv := nodeInv_of_unwrapped htop.1.1.1.1.1 (firstFollower c) hfirst
  have hleader : (t.node (firstFollower c)).leader = some (t.node (firstFollower c)).currentBallot := by
    obtain ⟨b, hb, ⟨j, hj, rfl⟩, -⟩ := htop.2 _ hfirst ((hquorum _ hmem).mpr rfl)
    rw [hb, (eligible_iff hnodup hclean h hp hscenario hfour hnodes j).mp hj]
  refine ⟨hleader, hinv.pid, fun l hl => ?_, fun i hi => ?_, fun es u hes hu i hi => ?_⟩
  · rcases hinv.last l hl with ⟨b, hb, hle⟩ | ⟨hnone, -⟩
    · obtain rfl := Option.some.inj (hleader.symm.trans hb)
      exact hle
    · rw [hleader] at hnone
      cases hnone
  · have hflag : (t.node i).candidate = decide (QuorumConnected S (links c.nodes p) i) := htop.1.1.1.1.2 i hi
    rw [hflag]
    exact decide_eq_decide.mpr (hquorum i (hnodes.mem_iff.mp hi))
  · exact ((stairs hS).kept kept_base).eq_of_run (f := fun s => s.outcome i)
      (fun _ _ _ ha he hab => outcome_step hS ha he hab hi) htop hes hu

theorem fiveNodes_takeover : ∃ p t, (partitionMachine (fiveNodes (.quorumLoss 9))).run
      (partitionMachine (fiveNodes (.quorumLoss 9))).init quorumLossEvents = some p ∧
    (machine star).run (machine star).init starLaps.flatten = some t ∧
    (t.node 3).leader = some ⟨1, 3⟩ ∧ (∀ i ∈ [1, 2, 3, 4, 5], (t.node i).candidate = decide (i = 3)) ∧
    ∀ es u, (machine star).AllSteps (Steady star (links [3, 1, 2, 4, 5] p)) t es →
      (machine star).run t es = some u → (u.node 3).leader = some ⟨1, 3⟩ := by
  obtain ⟨p, hp, hsettled, hok⟩ : ∃ p, (partitionMachine (fiveNodes (.quorumLoss 9))).run
      (partitionMachine (fiveNodes (.quorumLoss 9))).init quorumLossEvents = some p ∧ p.Settled ∧
      (machine star).AllSteps (Steady star (links [3, 1, 2, 4, 5] p)) (machine star).init starLaps.flatten :=
    ⟨_, rfl, by decide +kernel, by decide +kernel⟩
  obtain ⟨t, ht, hballot⟩ : ∃ t, (machine star).run (machine star).init starLaps.flatten = some t ∧
      (t.node 3).currentBallot = ⟨1, 3⟩ := ⟨_, rfl, by decide +kernel⟩
  obtain ⟨hleader, -, -, hflags, hrest⟩ := hub_takes_over (c := fiveNodes (.quorumLoss 9))
    (S := star) (by decide) rfl (Machine.ReachableUnder.init.run (by decide +kernel) hp) hsettled trivial
    (by decide) (by decide) Machine.ReachableUnder.init rfl lap_starLaps hok ht
  have hfirst : firstFollower (fiveNodes (.quorumLoss 9)) = 3 := by decide
  rw [hfirst, hballot] at hleader
  refine ⟨p, t, hp, ht, hleader, fun i hi => by rw [hflags i hi, hfirst], fun es u hes hu => ?_⟩
  have hout := hrest es u hes hu 3 (by decide)
  have hsame : (u.node 3).leader = (t.node 3).leader := congrArg (fun o => o.2.1) hout
  rw [hsame, hleader]

end OmniPaxosBench.Experiment.PartitionRun
