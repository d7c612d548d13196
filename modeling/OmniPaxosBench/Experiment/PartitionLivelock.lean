import OmniPaxosBench.Experiment.PartitionScenario
import OmniPaxosBench.LeaderElection.MultiPaxosLivelock

/-! # The Multi-Paxos style leader election during a partition

What the partitions do to the election in which every reply counts, whether its sender is linked to a
majority or not:

- in the chained scenario the leader and the first follower overtake each other without end
  (`chained_never_settles`);
- in the quorum loss the first follower keeps the old leader, which has lost its majority
  (`old_leader_followed`). -/

namespace OmniPaxosBench.Experiment.PartitionRun

open OmniPaxosBench.Lib OmniPaxosBench.LeaderElection OmniPaxosBench.LeaderElection.MPElection

variable {c : Client} {p : PartitionRun} {S : MPSetup} {s t : MPElection} {d i j : ℕ}

/-! ### The chained scenario -/

/-- A scenario that has begun has a leader. -/
theorem leader_mem (hnodup : c.nodes.Nodup) (hclean : pending c.timers = [])
    (h : (partitionMachine c).ReachableUnder BeforeRecovery p) (hstarted : p.started = true) :
    c.currentLeader ∈ c.nodes := by
  refine h.invariant (P := fun p => p.started = true → c.currentLeader ∈ c.nodes) (fun h => by cases h)
    (fun s e s' hr hok ih hstep hstarted' => ?_) hstarted
  cases e with
  | start now =>
    cases phase_of_reachable hnodup hclean hr with
    | fresh hfresh hclient =>
      dsimp only [partitionMachine, PartitionRun.step] at hstep
      rw [hfresh, if_neg Bool.false_ne_true, hclient] at hstep
      obtain ⟨⟨c', outs⟩, hok, rfl⟩ := Option.map_eq_some_iff.mp hstep
      exact (createPartition_cases (eq_ok_of_toOption hok)).2.1
    | waiting hbegun => exact ih hbegun.started
    | placed hbegun => exact ih hbegun.started
  | timeout now id =>
    obtain ⟨_, _, _, hlive, -⟩ := timeout_cases hstep hok
    cases phase_of_reachable hnodup hclean hr with
    | fresh _ hclient =>
      rw [hclient] at hlive
      have hmem : _ ∈ pending c.timers := List.mem_filter.mpr ⟨hlive, rfl⟩
      rw [hclean] at hmem
      cases hmem
    | waiting hbegun => exact ih hbegun.started
    | placed hbegun => exact ih hbegun.started
  | deliver i => exact ih ((NodeStep.frame (Or.inl ⟨i, hstep⟩)).2 ▸ hstarted')
  | fire i k => exact ih ((NodeStep.frame (Or.inr ⟨i, k, hstep⟩)).2 ▸ hstarted')

/-- The links of the chained scenario. -/
theorem mem_links_chained (hnodup : c.nodes.Nodup) (hclean : pending c.timers = [])
    (h : (partitionMachine c).ReachableUnder BeforeRecovery p) (hp : p.Settled)
    (hscenario : c.networkScenario = .chained d) (hi : i ∈ c.nodes) : j ∈ links c.nodes p i ↔
      j ∈ c.nodes ∧ j ≠ i ∧ ¬ ((i = c.currentLeader ∧ j = firstFollower c) ∨
        (i = firstFollower c ∧ j = c.currentLeader)) := by
  rw [mem_links]
  refine and_congr_right fun hj => and_congr_right fun hji => not_congr ?_
  rw [cut_of_settled hnodup hclean h hp hi hj hji, hscenario]
  exact Iff.rfl

theorem chained_network (hnodup : c.nodes.Nodup) (hclean : pending c.timers = [])
    (h : (partitionMachine c).ReachableUnder BeforeRecovery p) (hp : p.Settled)
    (hscenario : c.networkScenario = .chained d) (hthree : 3 ≤ c.nodes.length) :
    Network c.nodes (links c.nodes p) := by
  have hmem : ∀ {i j : ℕ}, i ∈ c.nodes → (j ∈ links c.nodes p i ↔ _) := fun hi =>
    mem_links_chained hnodup hclean h hp hscenario hi
  refine ⟨hnodup, fun i _ => hnodup.filter _, fun i hi j hj => ?_, fun i hi j hj => ?_, fun i hi => ?_⟩
  · exact ⟨((hmem hi).mp hj).1, ((hmem hi).mp hj).2.1⟩
  · obtain ⟨hjmem, hji, hcut⟩ := (hmem hi).mp hj
    exact (hmem hjmem).mpr ⟨hi, Ne.symm hji, fun hcut' => hcut (hcut'.symm.imp And.symm And.symm)⟩
  · -- all but the node itself and at most one other
    have hsub : c.nodes ⊆ i :: (if i = c.currentLeader then firstFollower c else c.currentLeader) ::
        links c.nodes p i := by
      intro j hj
      by_cases hji : j = i
      · exact List.mem_cons.mpr (Or.inl hji)
      by_cases hlink : j ∈ links c.nodes p i
      · exact List.mem_cons_of_mem _ (List.mem_cons_of_mem _ hlink)
      · refine List.mem_cons_of_mem _ (List.mem_cons.mpr (Or.inl ?_))
        have hcut := not_not.mp fun hcut => hlink ((hmem hi).mpr ⟨hj, hji, hcut⟩)
        by_cases hil : i = c.currentLeader
        · rw [if_pos hil]
          exact hcut.elim And.right fun hcut => absurd (hcut.2.trans hil.symm) hji
        · rw [if_neg hil]
          exact hcut.elim (fun hcut => absurd hcut.1 hil) And.right
    have hlength := (hnodup.subperm hsub).length_le
    rw [List.length_cons, List.length_cons] at hlength
    omega

theorem chained_chain (hnodup : c.nodes.Nodup) (hclean : pending c.timers = [])
    (h : (partitionMachine c).ReachableUnder BeforeRecovery p) (hp : p.Settled)
    (hscenario : c.networkScenario = .chained d) (hthree : 3 ≤ c.nodes.length) :
    Chain c.nodes (links c.nodes p) c.currentLeader (firstFollower c) := by
  obtain ⟨hfirst, hne⟩ := firstFollower_of_two hnodup (by omega)
  have hleader := leader_mem hnodup hclean h hp.started
  refine ⟨hleader, hfirst, hne.symm, fun hlink => ?_, fun u hu hul huf j hj hju => ?_⟩
  · exact ((mem_links_chained hnodup hclean h hp hscenario hleader).mp hlink).2.2 (Or.inl ⟨rfl, rfl⟩)
  · refine (mem_links_chained hnodup hclean h hp hscenario hu).mpr ⟨hj, hju, fun hcut => ?_⟩
    exact hcut.elim (fun hcut => hul hcut.1) fun hcut => huf hcut.1

/-- **The chained scenario has no end.** Where the leader or the first follower has the greatest ballot at
the start of a lap, it is one of the two that has it after any number of laps in lockstep; and every eight
laps raise its number. -/
theorem chained_never_settles (hnodup : c.nodes.Nodup) (hclean : pending c.timers = [])
    (h : (partitionMachine c).ReachableUnder BeforeRecovery p) (hp : p.Settled)
    (hscenario : c.networkScenario = .chained d) (hthree : 3 ≤ c.nodes.length) (hnodes : S.nodes.Perm c.nodes)
    (hS : Agreed S) (hzero : 0 ∉ S.nodes) (hs : (machine S).ReachableUnder (Unwrapped S) s)
    (haligned : Aligned S s) (hlead : Leads S.nodes c.currentLeader (firstFollower c) s i) {k : ℕ}
    {laps : List (List (ℕ × MPEvent))} (hlen : laps.length = 8 * k)
    (hlap : ∀ lap ∈ laps, Lockstep S.nodes lap)
    (hok : (machine S).AllSteps (Steady S (links c.nodes p)) s laps.flatten)
    (hrun : (machine S).run s laps.flatten = some t) :
    ∃ j, Leads S.nodes c.currentLeader (firstFollower c) t j ∧
      (s.node i).currentBallot.n + k ≤ (t.node j).currentBallot.n := by
  have net := (chained_network hnodup hclean h hp hscenario hthree).perm hnodes
  have chain := (chained_chain hnodup hclean h hp hscenario hthree).perm hnodes
  obtain ⟨j, hj, hrank⟩ := leads_laps hS net hzero chain hs haligned hlead
    (m := 2 * k) (by omega) hlap hok hrun
  refine ⟨j, hj, ?_⟩
  unfold rank at hrank
  split_ifs at hrank <;> omega

/-- Three nodes with leader 3. -/
def threeNodes : Client :=
  { Client.new .release [1, 2, 3] 1 [1, 2, 3] (.chained 9) none with currentLeader := 3, leaderRound := 1 }

def chainedEvents : List PartitionRunEvent := [.start 0, .deliver 3, .deliver 1]

theorem threeNodes_livelock : ∃ p t, (partitionMachine threeNodes).run (partitionMachine threeNodes).init
      chainedEvents = some p ∧
    (machine trio).run (machine trio).init (fullLaps trio trioLinks 8 (machine trio).init).flatten = some t ∧
    ∃ j, Leads trio.nodes 3 1 t j ∧ 1 ≤ (t.node j).currentBallot.n := by
  obtain ⟨p, hp, hsettled, hok⟩ : ∃ p, (partitionMachine threeNodes).run (partitionMachine threeNodes).init
      chainedEvents = some p ∧ p.Settled ∧
      (machine trio).AllSteps (Steady trio (links threeNodes.nodes p)) (machine trio).init
        (fullLaps trio trioLinks 8 (machine trio).init).flatten :=
    ⟨_, rfl, by decide +kernel, by decide +kernel⟩
  obtain ⟨t, ht⟩ : ∃ t, (machine trio).run (machine trio).init
      (fullLaps trio trioLinks 8 (machine trio).init).flatten = some t :=
    Option.isSome_iff_exists.mp (by decide +kernel)
  obtain ⟨j, hj, hle⟩ := chained_never_settles (c := threeNodes) (S := trio) (i := 3) (k := 1) (by decide) rfl
    (Machine.ReachableUnder.init.run (by decide +kernel) hp) hsettled rfl (by decide) (List.Perm.refl _)
    (fun _ _ _ h => by cases h) (by decide) Machine.ReachableUnder.init (aligned_init trio)
    ⟨Or.inl rfl, by decide⟩ (by decide +kernel) (fun _ h => lockstep_fullLaps h) hok ht
  exact ⟨p, t, hp, ht, j, hj, hle⟩

/-! ### The quorum loss -/

/-- **The quorum loss leaves the old leader.** If the first follower, at the start of a round, follows the
greatest ballot, and this is that of the client's leader, then it goes on to do so, whatever happens as
long as the partition lasts; no node raises its ballot, and the leader has no majority. -/
theorem old_leader_followed (hnodup : c.nodes.Nodup) (hclean : pending c.timers = [])
    (h : (partitionMachine c).ReachableUnder BeforeRecovery p) (hp : p.Settled)
    (hscenario : c.networkScenario = .quorumLoss d) (hfour : 4 ≤ c.nodes.length)
    (hnodes : S.nodes.Perm c.nodes) (hS : Agreed S) (hs : (machine S).ReachableUnder (Unwrapped S) s)
    (hballots : (s.node (firstFollower c)).ballots = [])
    (hcounts : ∀ m, ¬ (rounds S).Counts s (firstFollower c) m)
    (hfollows : (s.node (firstFollower c)).leader = some (s.node c.currentLeader).currentBallot)
    (hgreatest : ∀ j ∈ S.nodes, (s.node j).currentBallot ≤ (s.node c.currentLeader).currentBallot)
    {es : List (ℕ × MPEvent)} (hok : (machine S).AllSteps (Steady S (links c.nodes p)) s es)
    (hrun : (machine S).run s es = some t) :
    (t.node (firstFollower c)).leader = some (t.node c.currentLeader).currentBallot ∧
    t.indications (firstFollower c) = s.indications (firstFollower c) ∧
    (∀ j ∈ S.nodes, (t.node j).currentBallot = (s.node j).currentBallot) ∧
    ¬ QuorumConnected S (links c.nodes p) c.currentLeader := by
  have hleader : c.currentLeader ∈ c.nodes := leader_mem hnodup hclean h hp.started
  obtain ⟨hfirst, hne⟩ := firstFollower_of_two hnodup (by omega)
  have hquorum : ∀ i ∈ c.nodes, QuorumConnected S (links c.nodes p) i ↔ i = firstFollower c := by
    intro i hi
    unfold QuorumConnected
    rw [hnodes.length_eq]
    exact majority_iff hnodup hclean h hp (hscenario ▸ trivial) hfour hi
  have hpid : (s.node c.currentLeader).currentBallot.pid = c.currentLeader :=
    (knownInv_of_unwrapped hS hs).pid _
  have hlink : c.currentLeader ∈ links c.nodes p (firstFollower c) := by
    refine mem_links.mpr ⟨hleader, hne.symm, fun hcut => ?_⟩
    rw [cut_of_settled hnodup hclean h hp hfirst hleader hne.symm, hscenario] at hcut
    exact hcut.1 rfl
  have hstuck : Stuck S (firstFollower c) (s.node c.currentLeader).currentBallot s := by
    refine ⟨⟨hs, by rw [hpid]⟩, fun ⟨j, hj, hlt⟩ => not_lt.mpr (hgreatest j hj) hlt,
      ⟨fun a ha => ?_, fun m hm => absurd hm (hcounts m)⟩, hfollows⟩
    rw [hballots] at ha
    cases ha
  obtain ⟨hend, hsilent, hsame⟩ := hstuck.run hS (hnodes.nodup_iff.mpr hnodup)
    (by rw [hpid]; exact hnodes.mem_iff.mpr hleader) (hnodes.mem_iff.mpr hfirst) (by rw [hpid]; exact hlink)
    (fun i hi => (hquorum i (hnodes.mem_iff.mp hi)).mp) hok hrun
  refine ⟨?_, hsilent, hsame, fun hq => hne ((hquorum _ hleader).mp hq).symm⟩
  rw [hend, hsame _ (hnodes.mem_iff.mpr hleader)]

/-- Five nodes that were started with leader 5. -/
def ledByFive : MPSetup := ⟨[3, 1, 2, 4, 5], fun _ => some ⟨5, ⟨1, 5⟩⟩⟩

def hubLinks (i : ℕ) : List ℕ := if i = 3 then [1, 2, 4, 5] else [3]

theorem fiveNodes_followed : ∃ p t, (partitionMachine (fiveNodes (.quorumLoss 9))).run
      (partitionMachine (fiveNodes (.quorumLoss 9))).init quorumLossEvents = some p ∧
    (machine ledByFive).run (machine ledByFive).init
      (fullLaps ledByFive hubLinks 3 (machine ledByFive).init).flatten = some t ∧
    (t.node 3).leader = some (t.node 5).currentBallot ∧ t.indications 3 = [] ∧
    ¬ QuorumConnected ledByFive (links [3, 1, 2, 4, 5] p) 5 := by
  obtain ⟨p, hp, hsettled, hok⟩ : ∃ p, (partitionMachine (fiveNodes (.quorumLoss 9))).run
      (partitionMachine (fiveNodes (.quorumLoss 9))).init quorumLossEvents = some p ∧ p.Settled ∧
      (machine ledByFive).AllSteps (Steady ledByFive (links [3, 1, 2, 4, 5] p)) (machine ledByFive).init
        (fullLaps ledByFive hubLinks 3 (machine ledByFive).init).flatten :=
    ⟨_, rfl, by decide +kernel, by decide +kernel⟩
  obtain ⟨t, ht⟩ : ∃ t, (machine ledByFive).run (machine ledByFive).init
      (fullLaps ledByFive hubLinks 3 (machine ledByFive).init).flatten = some t :=
    Option.isSome_iff_exists.mp (by decide +kernel)
  have hstart := aligned_init ledByFive 3 (by decide)
  obtain ⟨hfollows, hsilent, -, hlost⟩ := old_leader_followed (c := fiveNodes (.quorumLoss 9)) (S := ledByFive)
    (by decide) rfl (Machine.ReachableUnder.init.run (by decide +kernel) hp) hsettled rfl (by decide)
    (List.Perm.refl _) (fun _ _ _ h => by cases h; decide) Machine.ReachableUnder.init hstart.1 hstart.2 rfl
    (by decide) hok ht
  exact ⟨p, t, hp, ht, hfollows, hsilent, hlost⟩

end OmniPaxosBench.Experiment.PartitionRun
