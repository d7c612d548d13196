import OmniPaxosBench.Experiment.BaseSteps
import OmniPaxosBench.Experiment.Client
import OmniPaxosBench.Lib.Ledger
import OmniPaxosBench.Lib.Machine

/-! # The client counts every proposal once

A client without a reconfiguration, from its start to `Stop`. Every id it has given out is in flight, was
answered during the warm-up or is among the responses, and each of them in one place only
(`client_counts_once`). Next to the client stands what it has sent so far and the ids it has counted in the
warm-up, of which it keeps only the number. -/

namespace OmniPaxosBench.Experiment.Client

open OmniPaxosBench.Lib OmniPaxosBench.OmniPaxos

/-- The events up to `Stop`; the leaders that messages name have pids from `1` on. -/
def BeforeStop : ClientEvent → Prop
  | .stop | .peerStop _ => False
  | .message (.leader pid _) => 1 ≤ pid
  | .message (.proposalResp _ latestLeader _) => 1 ≤ latestLeader
  | _ => True

/-- The id that a message answers. -/
def answers : ClientEvent → List ℕ
  | .message (.proposalResp data _ _) => (idOf data).toOption.toList
  | _ => []

/-- The client, what it has sent, and the ids it has counted in `warmup_decided`. -/
structure Observed where
  client : Client
  sent : List ClientOut
  warmed : List ℕ

/-- The client and its events, each with the time at which it happens. A panic ends the run. -/
def observed (c : Client) : Machine Observed (ℕ × ClientEvent) where
  init := ⟨c, [], []⟩
  step s e :=
    match s.client.handle e.1 e.2 with
    | some (.ok (t, outs)) => some
        { client := t
          sent := s.sent ++ outs
          warmed := if s.client.warmupDecided < t.warmupDecided then s.warmed ++ answers e.2 else s.warmed }
    | some (.error _) | none => none

/-- **Every proposal is counted once.** -/
structure CountsOnce (s : Observed) : Prop where
  conserved : s.client.warmupDecided + s.client.responses.len + s.client.pendingProposals.len =
    s.client.latestProposalId
  disjoint : ∀ id ∈ s.client.pendingProposals, id ∉ s.client.responses
  pending_mem : ∀ id ∈ s.client.pendingProposals, 1 ≤ id ∧ id ≤ s.client.latestProposalId
  responses_mem : ∀ id ∈ s.client.responses, 1 ≤ id ∧ id ≤ s.client.latestProposalId
  full : s.client.state ≠ .finished → s.client.pendingProposals.len = s.client.numConcurrentProposals
  proposed : freshIds s.sent = List.range' 1 s.client.latestProposalId
  warmed_length : s.warmed.length = s.client.warmupDecided
  warmed_nodup : s.warmed.Nodup
  warmed_disjoint : ∀ id ∈ s.warmed, id ∉ s.client.responses

/-! ### What a step does -/

variable {c t : Client} {now : ℕ} {e : ClientEvent} {outs : List ClientOut}

/-- A step that counts nothing and proposes nothing new. -/
structure Quiet (c t : Client) : Prop where
  latest : t.latestProposalId = c.latestProposalId
  pending : t.pendingProposals = c.pendingProposals
  responses : t.responses = c.responses
  warmup : t.warmupDecided = c.warmupDecided
  reconfig : t.reconfig = c.reconfig
  concurrent : t.numConcurrentProposals = c.numConcurrentProposals
  leader : c.currentLeader ≠ 0 → t.currentLeader ≠ 0
  stopAsk : t.stopAsk = c.stopAsk

theorem Quiet.refl (c : Client) : Quiet c c := ⟨rfl, rfl, rfl, rfl, rfl, rfl, id, rfl⟩

theorem Quiet.trans {d : Client} (h : Quiet c d) (h' : Quiet d t) : Quiet c t :=
  ⟨h'.latest.trans h.latest, h'.pending.trans h.pending, h'.responses.trans h.responses,
    h'.warmup.trans h.warmup, h'.reconfig.trans h.reconfig, h'.concurrent.trans h.concurrent,
    h'.leader ∘ h.leader, h'.stopAsk.trans h.stopAsk⟩

theorem createPartition_ok (h : c.createPartition now = .ok (t, outs)) :
    Quiet c t ∧ t.state = c.state ∧ freshIds outs = [] := by
  unfold createPartition at h
  split_ifs at h with hzero hnode
  dsimp only at h
  split at h
  · cases h
    exact ⟨⟨rfl, rfl, rfl, rfl, rfl, rfl, id, rfl⟩, rfl, rfl⟩
  · cases h
  · cases h
  · cases h
    refine ⟨⟨rfl, rfl, rfl, rfl, rfl, rfl, id, rfl⟩, rfl, freshIds_eq_nil fun out hout => ?_⟩
    obtain ⟨pid, -, rfl⟩ := List.mem_map.mp hout
    rfl
  · cases h
    exact ⟨⟨rfl, rfl, rfl, rfl, rfl, rfl, id, rfl⟩, rfl, rfl⟩
  · cases h
    exact ⟨⟨rfl, rfl, rfl, rfl, rfl, rfl, id, rfl⟩, rfl, rfl⟩

theorem handleRun_ok (hrec : c.reconfig = none) (h : c.handleRun now = .ok (t, outs)) :
    Quiet c t ∧ t.state = .running ∧ freshIds outs = [] := by
  unfold handleRun at h
  dsimp only at h
  split_ifs at h with hzero
  · cases h
  · obtain ⟨⟨d, outs'⟩, hpart, hend⟩ := bind_eq_ok.mp h
    obtain ⟨hquiet, hstate, houts⟩ := createPartition_ok hpart
    have hnone : d.reconfig = none := hquiet.reconfig.trans hrec
    dsimp only at hend
    rw [if_pos hnone] at hend
    cases hend
    exact ⟨⟨hquiet.latest, hquiet.pending, hquiet.responses, hquiet.warmup, hquiet.reconfig,
      hquiet.concurrent, hquiet.leader, hquiet.stopAsk⟩, hstate, houts⟩

theorem recordDownTime_ok (h : c.recordDownTime now = .ok t) : Quiet c t := by
  unfold recordDownTime at h
  split_ifs at h with hdown
  · split at h
    · cases h
      exact ⟨rfl, rfl, rfl, rfl, rfl, rfl, id, rfl⟩
    · cases h
  · cases h
    exact .refl _

theorem experimentTimeout_ok (hrec : c.reconfig = none) (h : c.experimentTimeout now = .ok (t, outs)) :
    Quiet c t ∧ t.state = .finished ∧ outs = [] := by
  unfold experimentTimeout at h
  rw [if_pos hrec] at h
  dsimp only at h
  obtain ⟨d, hdown, hrest⟩ := bind_eq_ok.mp h
  obtain ⟨b, hfin, hend⟩ := bind_eq_ok.mp hrest
  have hquiet : Quiet c d := by
    refine Quiet.trans ?_ (recordDownTime_ok hdown)
    split
    · exact ⟨rfl, rfl, rfl, rfl, rfl, rfl, id, rfl⟩
    · exact .refl c
  obtain ⟨-, rfl⟩ := BaseClient.finish_ok hfin
  obtain ⟨timers, windowTimer, heq, -⟩ := BaseClient.cancelWindowTimer_eq
    { d.toBaseClient with finishedLatch := d.finishedLatch - 1, state := .finished }
  rw [heq] at hend
  cases hend
  exact ⟨⟨hquiet.latest, hquiet.pending, hquiet.responses, hquiet.warmup, hquiet.reconfig,
    hquiet.concurrent, hquiet.leader, hquiet.stopAsk⟩, rfl, rfl⟩

theorem proposalTimeout_ok {id : ℕ} (h : c.proposalTimeout id = .ok (t, outs)) :
    Quiet c t ∧ t.state = c.state ∧ freshIds outs = [] := by
  unfold proposalTimeout at h
  split_ifs at h with hanswered
  · cases h
    exact ⟨.refl _, rfl, rfl⟩
  · dsimp only at h
    split_ifs at h with hrunning
    · obtain ⟨out, hout, hend⟩ := bind_eq_ok.mp h
      obtain ⟨-, rfl⟩ := BaseClient.proposeNormal_ok hout
      cases hend
      exact ⟨⟨rfl, rfl, rfl, rfl, rfl, rfl, fun h => h, rfl⟩, rfl, rfl⟩
    · cases h
      exact ⟨⟨rfl, rfl, rfl, rfl, rfl, rfl, fun h => h, rfl⟩, rfl, rfl⟩

theorem disconnectNonLagging_ok {followers : List ℕ} {laggingFollower leader : ℕ}
    (h : c.disconnectNonLagging followers laggingFollower leader = .ok (t, outs)) :
    Quiet c t ∧ t.state = c.state ∧ freshIds outs = [] := by
  unfold disconnectNonLagging at h
  obtain ⟨outs', hmap, hend⟩ := bind_eq_ok.mp h
  cases hend
  refine ⟨⟨rfl, rfl, rfl, rfl, rfl, rfl, fun h => h, rfl⟩, rfl, ?_⟩
  have hnone := forall_mem_of_mapM (P := fun out => freshId out = none) (fun pid out hout => by
    dsimp only at hout
    split_ifs at hout
    cases hout
    rfl) hmap
  rw [freshIds_append, freshIds_eq_nil hnone]
  rfl

theorem recoverPartition_eq (h : c.recoverPartition = (t, outs)) :
    Quiet c t ∧ t.state = c.state ∧ freshIds outs = [] := by
  unfold recoverPartition at h
  cases h
  refine ⟨?_, ?_, freshIds_eq_nil fun out hout => ?_⟩
  · split
    · exact ⟨rfl, rfl, rfl, rfl, rfl, rfl, id, rfl⟩
    · exact .refl c
  · split
    · rfl
    · rfl
  · obtain ⟨pid, -, rfl⟩ := List.mem_map.mp hout
    rfl

/-- **A callback** counts nothing. -/
theorem runCallback_ok {cb : ClientCallback} (hrec : c.reconfig = none) (hask : c.stopAsk = false)
    (hpend : c.state ≠ .pendingReconfiguration) (hstarted : c.state ≠ .setup)
    (h : c.runCallback now cb = .ok (t, outs)) :
    Quiet c t ∧ t.state ≠ .setup ∧ t.state ≠ .pendingReconfiguration ∧ freshIds outs = [] := by
  cases cb with
  | proposalTimeout id =>
    obtain ⟨hquiet, hstate, houts⟩ := proposalTimeout_ok h
    exact ⟨hquiet, by rwa [hstate], by rwa [hstate], houts⟩
  | reconfigTimeout =>
    obtain ⟨⟨b, outs'⟩, hre, -⟩ := map_eq_ok.mp h
    obtain ⟨leader, -, hrest⟩ := bind_eq_ok.mp hre
    obtain ⟨out, hout, -⟩ := bind_eq_ok.mp hrest
    unfold BaseClient.proposeReconfiguration at hout
    rw [hrec] at hout
    cases hout
  | experimentTimeout =>
    obtain ⟨hquiet, hstate, rfl⟩ := experimentTimeout_ok hrec h
    rw [hstate]
    exact ⟨hquiet, by decide, by decide, rfl⟩
  | warmupDone =>
    unfold runCallback at h
    dsimp only at h
    split_ifs at h with hlatch
    cases h
    exact ⟨⟨rfl, rfl, rfl, rfl, rfl, rfl, id, rfl⟩, hstarted, hpend, rfl⟩
  | window =>
    cases h
    exact ⟨⟨rfl, rfl, rfl, rfl, rfl, rfl, id, rfl⟩, hstarted, hpend, rfl⟩
  | recoverPartition =>
    obtain ⟨hquiet, hstate, houts⟩ := recoverPartition_eq (Except.ok.inj h)
    exact ⟨hquiet, by rwa [hstate], by rwa [hstate], houts⟩
  | disconnectNonLagging followers laggingFollower leader =>
    obtain ⟨hquiet, hstate, houts⟩ := disconnectNonLagging_ok h
    exact ⟨hquiet, by rwa [hstate], by rwa [hstate], houts⟩
  | kill =>
    unfold runCallback at h
    dsimp only at h
    split_ifs at h with hnodes
    · cases h
      exact ⟨.refl _, hstarted, hpend, rfl⟩
    · obtain ⟨res, hreply, -⟩ := bind_eq_ok.mp h
      unfold BaseClient.replyStopAsk at hreply
      rw [hask] at hreply
      cases hreply

theorem handleTimeout_ok {id : ℕ} (hrec : c.reconfig = none) (hask : c.stopAsk = false)
    (hpend : c.state ≠ .pendingReconfiguration) (hstarted : c.state ≠ .setup)
    (h : c.handleTimeout now id = some (.ok (t, outs))) :
    Quiet c t ∧ t.state ≠ .setup ∧ t.state ≠ .pendingReconfiguration ∧ freshIds outs = [] := by
  obtain ⟨cb, -, hrun⟩ := Option.map_eq_some_iff.mp h
  dsimp only at hrun
  split_ifs at hrun with hwindow
  · exact runCallback_ok hrec hask hpend hstarted hrun
  · obtain ⟨hquiet, hrest⟩ :=
      runCallback_ok (c := { c with timers := c.timers.remove id }) hrec hask hpend hstarted hrun
    exact ⟨⟨hquiet.latest, hquiet.pending, hquiet.responses, hquiet.warmup, hquiet.reconfig,
      hquiet.concurrent, hquiet.leader, hquiet.stopAsk⟩, hrest⟩

/-! ### Answers -/

theorem recordRecovery_ok {id : ℕ} (h : c.recordRecovery now id = .ok t) :
    ∃ downTime, t = { c with longestDownTime := downTime } := by
  unfold recordRecovery at h
  split at h
  · split_ifs at h with hdown
    · split at h
      · cases h
        exact ⟨_, rfl⟩
      · cases h
    · cases h
      exact ⟨_, rfl⟩
  · cases h
    exact ⟨_, rfl⟩

/-- The client that has counted the answer to a pending proposal, before it proposes anew. -/
structure Answered (id : ℕ) (c d : Client) : Prop where
  latest : d.latestProposalId = c.latestProposalId
  pending : d.pendingProposals = c.pendingProposals.erase id
  counted : (c.state = .running ∧ d.responses.keys = insert id c.responses.keys ∧
      d.warmupDecided = c.warmupDecided) ∨
    (c.state = .warmUp ∧ d.responses = c.responses ∧ d.warmupDecided = c.warmupDecided + 1)
  reconfig : d.reconfig = c.reconfig
  concurrent : d.numConcurrentProposals = c.numConcurrentProposals
  leader : c.currentLeader ≠ 0 → d.currentLeader ≠ 0
  stopAsk : d.stopAsk = c.stopAsk
  state : d.state = c.state

/-- The client that counts an answer has taken the proposal off, and may have learnt of a leader. -/
theorem handleNormalResponse_answered {a : Client} (id : ℕ) (latency : Option ℕ)
    (hlatest : a.latestProposalId = c.latestProposalId)
    (hpending : a.pendingProposals = c.pendingProposals.erase id) (hresponses : a.responses = c.responses)
    (hwarmup : a.warmupDecided = c.warmupDecided) (hrec : a.reconfig = c.reconfig)
    (hconcurrent : a.numConcurrentProposals = c.numConcurrentProposals)
    (hleader : c.currentLeader ≠ 0 → a.currentLeader ≠ 0) (hask : a.stopAsk = c.stopAsk)
    (hstate : a.state = c.state) (hactive : c.state = .running ∨ c.state = .warmUp) :
    Answered id c (a.handleNormalResponse id latency) := by
  unfold handleNormalResponse
  rcases hactive with hrun | hwarm
  · rw [hstate, hrun]
    refine ⟨hlatest, hpending, Or.inl ⟨hrun, ?_, hwarmup⟩, hrec, hconcurrent, hleader, hask, hrun.symm⟩
    change (a.responses.insert id latency).keys = _
    rw [HashMap.keys_insert, hresponses]
  · rw [hstate, hwarm]
    exact ⟨hlatest, hpending, Or.inr ⟨hwarm, hresponses, by rw [← hwarmup]⟩, hrec, hconcurrent, hleader, hask,
      hstate⟩

/-- **An answer** is ignored, or the answer to a pending proposal, which is counted. -/
theorem handleProposalResp_ok {data : Data} {latestLeader leaderRound : ℕ} (hleader : 1 ≤ latestLeader)
    (hpend : c.state ≠ .pendingReconfiguration) (hstarted : c.state ≠ .setup)
    (h : c.handleProposalResp now data latestLeader leaderRound = .ok (t, outs)) :
    (t = c ∧ outs = []) ∨ ∃ id d, idOf data = .ok id ∧ id ∈ c.pendingProposals ∧ Answered id c d ∧
      d.sendConcurrentProposals now = .ok (t, outs) := by
  unfold handleProposalResp at h
  split_ifs at h with hfin
  · cases h
    exact Or.inl ⟨rfl, rfl⟩
  · obtain ⟨id, hid, hrest⟩ := bind_eq_ok.mp h
    have hactive : c.state = .running ∨ c.state = .warmUp := by
      cases hstate : c.state with
      | setup => exact absurd hstate hstarted
      | warmUp => exact Or.inr rfl
      | running => exact Or.inl rfl
      | pendingReconfiguration => exact absurd hstate hpend
      | finished => exact absurd hstate hfin
    split at hrest
    · cases hrest
      exact Or.inl ⟨rfl, rfl⟩
    · rename_i proposalMeta hmeta
      obtain ⟨d, hdown, hend⟩ := bind_eq_ok.mp hrest
      obtain ⟨downTime, rfl⟩ := recordRecovery_ok hdown
      obtain ⟨pid, round, changes, hlearn, hpid⟩ :=
        (c.toBaseClient.removePending id proposalMeta).learnLeader_eq now latestLeader leaderRound
      have hnonzero : c.currentLeader ≠ 0 → pid ≠ 0 := fun hne => by
        rcases hpid with rfl | rfl
        · exact hne
        · omega
      dsimp only at hend
      rw [hlearn] at hend
      have hanswered := handleNormalResponse_answered (c := c)
        (a := { c with
          toBaseClient := (c.toBaseClient.removePending id proposalMeta).withLeader pid round changes
          longestDownTime := downTime }) id (proposalMeta.startTime.map (now - ·))
        rfl rfl rfl rfl rfl rfl hnonzero rfl rfl hactive
      rw [if_pos (by rw [hanswered.state]; exact hactive)] at hend
      exact Or.inr ⟨id, _, hid, HashMap.mem_of_lookup hmeta, hanswered, hend⟩

/-! ### Every step -/

theorem changeLeader_quiet (c : Client) (now : ℕ) {pid : ℕ} (round : ℕ) (hpid : 1 ≤ pid) :
    Quiet c { c with toBaseClient := c.toBaseClient.changeLeader now pid round } ∧
      { c with toBaseClient := c.toBaseClient.changeLeader now pid round }.state = c.state := by
  obtain ⟨changes, heq⟩ := c.toBaseClient.changeLeader_eq now pid round
  rw [heq]
  exact ⟨⟨rfl, rfl, rfl, rfl, rfl, rfl, fun _ => Nat.one_le_iff_ne_zero.mp hpid, rfl⟩, rfl⟩

theorem handleProposal_ok {data : Data} (h : c.handleProposal data = .ok (t, outs)) :
    Quiet c t ∧ t.state = c.state ∧ freshIds outs = [] := by
  unfold handleProposal at h
  obtain ⟨id, -, hrest⟩ := bind_eq_ok.mp h
  split_ifs at hrest with hagain
  · obtain ⟨out, hout, hend⟩ := bind_eq_ok.mp hrest
    obtain ⟨-, rfl⟩ := BaseClient.proposeNormal_ok hout
    cases hend
    exact ⟨⟨rfl, rfl, rfl, rfl, rfl, rfl, fun h => h, rfl⟩, rfl, rfl⟩
  · cases hrest
    exact ⟨.refl _, rfl, rfl⟩

/-- What an event can do once the warm-up has started. -/
theorem handle_cases (hrec : c.reconfig = none) (hask : c.stopAsk = false)
    (hpend : c.state ≠ .pendingReconfiguration) (hstarted : c.state ≠ .setup)
    (hzero : reconfigId ∉ c.pendingProposals) (he : BeforeStop e) (h : c.handle now e = some (.ok (t, outs))) :
    (Quiet c t ∧ t.state ≠ .setup ∧ t.state ≠ .pendingReconfiguration ∧ freshIds outs = []) ∨
    ∃ id d, answers e = [id] ∧ id ∈ c.pendingProposals ∧ Answered id c d ∧
      d.sendConcurrentProposals now = .ok (t, outs) := by
  cases e with
  | stop => exact he.elim
  | peerStop pid => exact he.elim
  | run =>
    obtain ⟨hquiet, hstate, houts⟩ := handleRun_ok hrec (Option.some.inj h)
    rw [hstate]
    exact Or.inl ⟨hquiet, by decide, by decide, houts⟩
  | timeout id => exact Or.inl (handleTimeout_ok hrec hask hpend hstarted h)
  | message m =>
    have h := Option.some.inj h
    cases m with
    | leader pid round =>
      left
      change c.handleLeader now pid round = _ at h
      unfold handleLeader at h
      rw [if_neg hstarted] at h
      split_ifs at h with hnew
      · obtain ⟨hquiet, hstate⟩ := changeLeader_quiet c now round he
        cases h
        exact ⟨hquiet, by rwa [hstate], by rwa [hstate], rfl⟩
      · cases h
        exact ⟨.refl _, hstarted, hpend, rfl⟩
    | proposal p =>
      obtain ⟨hquiet, hstate, houts⟩ := handleProposal_ok h
      exact Or.inl ⟨hquiet, by rwa [hstate], by rwa [hstate], houts⟩
    | proposalResp data latestLeader leaderRound =>
      rcases handleProposalResp_ok he hpend hstarted h with ⟨rfl, rfl⟩ | ⟨id, d, hid, hmem, hanswered, hsend⟩
      · exact Or.inl ⟨.refl _, hstarted, hpend, rfl⟩
      · exact Or.inr ⟨id, d, by simp [answers, hid, Except.toOption], hmem, hanswered, hsend⟩
    | reconfigurationProposal rp =>
      cases h
      exact Or.inl ⟨.refl _, hstarted, hpend, rfl⟩
    | reconfigurationResp latestLeader leaderRound currentConfiguration =>
      change c.handleReconfigResponse now latestLeader leaderRound currentConfiguration = _ at h
      unfold handleReconfigResponse at h
      rw [Finmap.lookup_eq_none.mpr hzero] at h
      cases h
      exact Or.inl ⟨.refl _, hstarted, hpend, rfl⟩

/-- Before the warm-up only a `Leader` message does anything. -/
theorem handle_setup (hstate : c.state = .setup) (hleader : c.currentLeader = 0)
    (hpending : c.pendingProposals = ∅) (htimers : c.timers.live = []) (he : BeforeStop e)
    (h : c.handle now e = some (.ok (t, outs))) :
    (t = c ∧ outs = []) ∨
    ∃ pid round, 1 ≤ pid ∧ { c with currentLeader := pid, leaderRound := round }.startWarmup now = .ok (t, outs) := by
  cases e with
  | stop => exact he.elim
  | peerStop pid => exact he.elim
  | run =>
    have h := Option.some.inj h
    unfold handleRun at h
    dsimp only at h
    rw [if_pos hleader] at h
    cases h
  | timeout id =>
    obtain ⟨cb, hcb, -⟩ := Option.map_eq_some_iff.mp h
    have hlive := Timers.callbackOf_eq_some hcb
    rw [htimers] at hlive
    cases hlive
  | message m =>
    have h := Option.some.inj h
    cases m with
    | leader pid round =>
      change c.handleLeader now pid round = _ at h
      unfold handleLeader at h
      rw [if_pos hstate, if_neg (Nat.one_le_iff_ne_zero.mp he)] at h
      exact Or.inr ⟨pid, round, he, h⟩
    | proposal p =>
      left
      change c.handleProposal p.data = _ at h
      unfold handleProposal at h
      obtain ⟨id, -, hrest⟩ := bind_eq_ok.mp h
      rw [if_neg (by rw [hstate]; exact fun hc => (nomatch hc.2))] at hrest
      cases hrest
      exact ⟨rfl, rfl⟩
    | proposalResp data latestLeader leaderRound =>
      left
      change c.handleProposalResp now data latestLeader leaderRound = _ at h
      unfold handleProposalResp at h
      rw [if_neg (by rw [hstate]; decide)] at h
      obtain ⟨id, -, hrest⟩ := bind_eq_ok.mp h
      rw [hpending, Finmap.lookup_empty] at hrest
      cases hrest
      exact ⟨rfl, rfl⟩
    | reconfigurationProposal rp =>
      cases h
      exact Or.inl ⟨rfl, rfl⟩
    | reconfigurationResp latestLeader leaderRound currentConfiguration =>
      left
      change c.handleReconfigResponse now latestLeader leaderRound currentConfiguration = _ at h
      unfold handleReconfigResponse at h
      rw [hpending, Finmap.lookup_empty] at h
      cases h
      exact ⟨rfl, rfl⟩

/-- **New proposals** fill the flight. -/
theorem sendConcurrentProposals_ok {done : Finset ℕ} (hleader : c.currentLeader ≠ 0)
    (hledger : Ledger 0 c.latestProposalId c.pendingProposals.keys done)
    (hlen : c.pendingProposals.len ≤ c.numConcurrentProposals)
    (h : c.sendConcurrentProposals now = .ok (t, outs)) :
    ∃ n pending timers,
      t = { c with
        latestProposalId := c.latestProposalId + n, pendingProposals := pending, timers := timers } ∧
      Ledger 0 (c.latestProposalId + n) pending.keys done ∧ pending.len = c.numConcurrentProposals ∧
      freshIds outs = List.range' (c.latestProposalId + 1) n := by
  obtain ⟨⟨b, outs'⟩, hsend, hend⟩ := map_eq_ok.mp h
  obtain ⟨n, pending, timers, rfl, hp, rfl, hn⟩ := BaseClient.sendConcurrentProposals_ok hlen hsend
  cases hend
  rw [if_neg hleader] at hn
  have hnext := hledger.propose n
  rw [← hp.keys] at hnext
  refine ⟨n, pending, timers, rfl, hnext, ?_, freshIds_map_proposal _ _⟩
  have hbefore := hledger.card
  have hafter := hnext.card
  change n = c.numConcurrentProposals - c.pendingProposals.keys.card at hn
  change c.pendingProposals.keys.card ≤ _ at hlen
  change pending.keys.card = _
  omega

/-! ### The invariant -/

/-- What holds of the client and what it has sent in every state before `Stop`. -/
structure Counted (s : Observed) : Prop where
  reconfig : s.client.reconfig = none
  stopAsk : s.client.stopAsk = false
  noPending : s.client.state ≠ .pendingReconfiguration
  ledger : Ledger 0 s.client.latestProposalId s.client.pendingProposals.keys
    (s.client.responses.keys ∪ s.warmed.toFinset)
  proposed : freshIds s.sent = List.range' 1 s.client.latestProposalId
  warmed_length : s.warmed.length = s.client.warmupDecided
  warmed_nodup : s.warmed.Nodup
  warmed_disjoint : ∀ id ∈ s.warmed, id ∉ s.client.responses
  setup : s.client.state = .setup → s.client.latestProposalId = 0 ∧ s.client.currentLeader = 0 ∧
    s.client.pendingProposals = ∅ ∧ s.client.timers.live = []
  started : s.client.state ≠ .setup → s.client.currentLeader ≠ 0 ∧
    s.client.pendingProposals.len = s.client.numConcurrentProposals

variable {s s' : Observed}

theorem Counted.zero (h : Counted s) : reconfigId ∉ s.client.pendingProposals := fun hmem =>
  absurd (h.ledger.mem_inFlight (Finmap.mem_keys.mpr hmem)).1 (Nat.lt_irrefl 0)

theorem counted_new (build : Build) (initialConfig : List ℕ) (numConcurrentProposals : ℕ) (nodes : List ℕ)
    (networkScenario : NetworkScenario) :
    Counted ⟨.new build initialConfig numConcurrentProposals nodes networkScenario none, [], []⟩ where
  reconfig := rfl
  stopAsk := rfl
  noPending := by simp [new, BaseClient.new]
  ledger := Ledger.empty 0
  proposed := rfl
  warmed_length := rfl
  warmed_nodup := List.nodup_nil
  warmed_disjoint := by simp
  setup _ := ⟨rfl, rfl, rfl, rfl⟩
  started h := absurd rfl h

/-- A step that counts nothing. -/
theorem Counted.quiet (h : Counted s) (hstarted : s.client.state ≠ .setup) (hquiet : Quiet s.client t)
    (hsetup : t.state ≠ .setup) (hpend : t.state ≠ .pendingReconfiguration) (houts : freshIds outs = []) :
    Counted ⟨t, s.sent ++ outs, s.warmed⟩ where
  reconfig := hquiet.reconfig.trans h.reconfig
  stopAsk := hquiet.stopAsk.trans h.stopAsk
  noPending := hpend
  ledger := by
    change Ledger 0 t.latestProposalId t.pendingProposals.keys (t.responses.keys ∪ _)
    rw [hquiet.latest, hquiet.pending, hquiet.responses]
    exact h.ledger
  proposed := by
    rw [freshIds_append, houts, List.append_nil, h.proposed]
    exact congrArg (List.range' 1) hquiet.latest.symm
  warmed_length := h.warmed_length.trans hquiet.warmup.symm
  warmed_nodup := h.warmed_nodup
  warmed_disjoint id hid := by
    change id ∉ t.responses
    rw [hquiet.responses]
    exact h.warmed_disjoint id hid
  setup hs := absurd hs hsetup
  started _ := by
    refine ⟨hquiet.leader (h.started hstarted).1, ?_⟩
    change t.pendingProposals.len = t.numConcurrentProposals
    rw [hquiet.pending, hquiet.concurrent]
    exact (h.started hstarted).2

/-- **The first leader**: as many proposals as may be in flight. -/
theorem Counted.startWarmup (h : Counted s) (hsetup : s.client.state = .setup) {pid round : ℕ}
    (hpid : 1 ≤ pid)
    (hstep : { s.client with currentLeader := pid, leaderRound := round }.startWarmup now = .ok (t, outs)) :
    Counted ⟨t, s.sent ++ outs, s.warmed⟩ ∧ t.warmupDecided = s.client.warmupDecided := by
  obtain ⟨hlatest, -, hempty, -⟩ := h.setup hsetup
  obtain ⟨⟨d, outs'⟩, hsend, hend⟩ := bind_eq_ok.mp hstep
  have hroom : s.client.pendingProposals.len ≤ s.client.numConcurrentProposals := by
    rw [hempty]
    exact Nat.zero_le _
  obtain ⟨n, pending, timers, rfl, hledger, hlen, hfresh⟩ := sendConcurrentProposals_ok
    (c := { s.client with currentLeader := pid, leaderRound := round, state := .warmUp })
    (Nat.one_le_iff_ne_zero.mp hpid) h.ledger hroom hsend
  dsimp only at hend
  rw [if_pos h.reconfig] at hend
  cases hend
  refine ⟨⟨h.reconfig, h.stopAsk, ?_, hledger, ?_, h.warmed_length, h.warmed_nodup, h.warmed_disjoint, ?_, ?_⟩,
    rfl⟩
  · exact fun hc => nomatch hc
  · rw [freshIds_append, h.proposed]
    refine (congrArg (List.range' 1 s.client.latestProposalId ++ ·) hfresh).trans ?_
    rw [← List.range'_append_1, Nat.add_comm 1]
  · exact fun hc => nomatch hc
  · exact fun _ => ⟨Nat.one_le_iff_ne_zero.mp hpid, hlen⟩

/-- **An answer**: its id is counted, in the warm-up or among the responses, and the flight filled. -/
theorem Counted.answered (h : Counted s) (hstarted : s.client.state ≠ .setup) {id : ℕ} {d : Client}
    (hmem : id ∈ s.client.pendingProposals) (hanswered : Answered id s.client d)
    (hsend : d.sendConcurrentProposals now = .ok (t, outs)) :
    Counted ⟨t, s.sent ++ outs,
      if s.client.warmupDecided < t.warmupDecided then s.warmed ++ [id] else s.warmed⟩ := by
  obtain ⟨hleader, hfull⟩ := h.started hstarted
  have hkey : id ∈ s.client.pendingProposals.keys := Finmap.mem_keys.mpr hmem
  have hnew : id ∉ s.client.responses.keys ∪ s.warmed.toFinset := Finset.disjoint_left.mp h.ledger.disjoint hkey
  rw [Finset.mem_union, not_or, List.mem_toFinset] at hnew
  have hledger : Ledger 0 d.latestProposalId d.pendingProposals.keys
      (insert id (s.client.responses.keys ∪ s.warmed.toFinset)) := by
    rw [hanswered.latest, hanswered.pending, Finmap.keys_erase]
    exact h.ledger.answer hkey
  have hroom : d.pendingProposals.len ≤ d.numConcurrentProposals := by
    rw [hanswered.pending, hanswered.concurrent, ← hfull]
    unfold HashMap.len
    rw [Finmap.keys_erase]
    exact Finset.card_le_card (Finset.erase_subset id _)
  obtain ⟨n, pending, timers, rfl, hnext, hlen, hfresh⟩ :=
    sendConcurrentProposals_ok (hanswered.leader hleader) hledger hroom hsend
  have hproposed : freshIds (s.sent ++ outs) = List.range' 1 (d.latestProposalId + n) := by
    rw [freshIds_append, hfresh, h.proposed, hanswered.latest, ← List.range'_append_1, Nat.add_comm 1]
  have hsetup : d.state ≠ .setup := by rwa [hanswered.state]
  have hpend : d.state ≠ .pendingReconfiguration := by
    rw [hanswered.state]
    exact h.noPending
  rcases hanswered.counted with ⟨-, hkeys, hwarmup⟩ | ⟨-, hresponses, hwarmup⟩
  · -- the responses get the id
    rw [if_neg (by dsimp only; omega)]
    refine ⟨hanswered.reconfig.trans h.reconfig, hanswered.stopAsk.trans h.stopAsk, hpend, ?_, hproposed,
      h.warmed_length.trans hwarmup.symm, h.warmed_nodup, fun k hk => ?_, fun hs => absurd hs hsetup,
      fun _ => ⟨hanswered.leader hleader, hlen⟩⟩
    · change Ledger 0 _ pending.keys (d.responses.keys ∪ _)
      rw [hkeys, Finset.insert_union]
      exact hnext
    · change k ∉ d.responses
      rw [← Finmap.mem_keys, hkeys, Finset.mem_insert, not_or, Finmap.mem_keys]
      refine ⟨fun heq => ?_, h.warmed_disjoint k hk⟩
      subst heq
      exact hnew.2 hk
  · -- the warm-up counts it
    rw [if_pos (by dsimp only; omega)]
    refine ⟨hanswered.reconfig.trans h.reconfig, hanswered.stopAsk.trans h.stopAsk, hpend, ?_, hproposed,
      ?_, ?_, fun k hk => ?_, fun hs => absurd hs hsetup, fun _ => ⟨hanswered.leader hleader, hlen⟩⟩
    · change Ledger 0 _ pending.keys (d.responses.keys ∪ _)
      rw [hresponses, List.toFinset_append, ← Finset.union_assoc]
      simpa [Finset.union_comm] using hnext
    · rw [List.length_append, h.warmed_length]
      exact hwarmup.symm
    · exact List.nodup_append.mpr ⟨h.warmed_nodup, List.nodup_singleton id, fun a ha b hb => by
        rw [List.mem_singleton.mp hb]
        exact fun heq => hnew.2 (heq ▸ ha)⟩
    · change k ∉ d.responses
      rw [hresponses]
      rcases List.mem_append.mp hk with hk | hk
      · exact h.warmed_disjoint k hk
      · rw [List.mem_singleton.mp hk]
        exact fun hc => hnew.1 (Finmap.mem_keys.mpr hc)

/-- **One step** keeps the invariant. -/
theorem Counted.step {c₀ : Client} {e : ℕ × ClientEvent} (h : Counted s) (he : BeforeStop e.2)
    (hstep : c₀.observed.step s e = some s') : Counted s' := by
  change (match s.client.handle e.1 e.2 with
    | some (.ok (t, outs)) => _
    | some (.error _) | none => _) = _ at hstep
  split at hstep
  · rename_i t outs hhandle
    cases hstep
    by_cases hsetup : s.client.state = .setup
    · obtain ⟨-, hleader, hempty, htimers⟩ := h.setup hsetup
      rcases handle_setup hsetup hleader hempty htimers he hhandle with ⟨rfl, rfl⟩ | ⟨pid, round, hpid, hwarm⟩
      · rw [if_neg (Nat.lt_irrefl _), List.append_nil]
        exact h
      · obtain ⟨hnext, hwarmup⟩ := h.startWarmup hsetup hpid hwarm
        rw [if_neg (by omega)]
        exact hnext
    · rcases handle_cases h.reconfig h.stopAsk h.noPending hsetup h.zero he hhandle with
        ⟨hquiet, hne, hpend, houts⟩ | ⟨id, d, hid, hmem, hanswered, hsend⟩
      · rw [if_neg (by rw [hquiet.warmup]; exact Nat.lt_irrefl _)]
        exact h.quiet hsetup hquiet hne hpend houts
      · rw [hid]
        exact h.answered hsetup hmem hanswered hsend
  · cases hstep
  · cases hstep

theorem Counted.countsOnce (h : Counted s) (hstarted : s.client.state ≠ .setup) : CountsOnce s := by
  have hdisjoint : Disjoint s.client.responses.keys s.warmed.toFinset :=
    Finset.disjoint_right.mpr fun id hid hresp =>
      h.warmed_disjoint id (List.mem_toFinset.mp hid) (Finmap.mem_keys.mp hresp)
  refine ⟨?_, fun id hid hresp => ?_, fun id hid => ?_, fun id hid => ?_, fun _ => (h.started hstarted).2,
    h.proposed, h.warmed_length, h.warmed_nodup, h.warmed_disjoint⟩
  · have hcard := h.ledger.card
    rw [Finset.card_union_of_disjoint hdisjoint, List.toFinset_card_of_nodup h.warmed_nodup,
      h.warmed_length] at hcard
    change _ + s.client.responses.keys.card + s.client.pendingProposals.keys.card = _
    omega
  · exact Finset.disjoint_left.mp h.ledger.disjoint (Finmap.mem_keys.mpr hid)
      (Finset.mem_union_left _ (Finmap.mem_keys.mpr hresp))
  · exact h.ledger.mem_inFlight (Finmap.mem_keys.mpr hid)
  · exact h.ledger.mem_done (Finset.mem_union_left _ (Finmap.mem_keys.mpr hid))

/-! ### The subtraction -/

/-- The panic of a subtraction below zero. -/
def overflow : String := "attempt to subtract with overflow"

theorem noOverflow_proposeNormal (b : BaseClient) (origin : Origin) (id : ℕ) :
    FailsWith (· ≠ overflow) (b.proposeNormal origin id) :=
  (b.failsWith_proposeNormal origin id).mono (by rintro _ rfl; decide)

theorem noOverflow_sendConcurrentProposals (hlen : c.pendingProposals.len ≤ c.numConcurrentProposals) :
    FailsWith (· ≠ overflow) (c.sendConcurrentProposals now) :=
  .map ((BaseClient.failsWith_sendConcurrentProposals hlen).mono (by rintro _ rfl; decide))

theorem noOverflow_idOf (data : Data) : FailsWith (· ≠ overflow) (idOf data) := by
  unfold idOf
  split
  · exact .ok _
  · exact .error (by decide)

theorem noOverflow_createPartition (c : Client) (now : ℕ) :
    FailsWith (· ≠ overflow) (c.createPartition now) := by
  unfold createPartition
  split_ifs
  · exact .error (by decide)
  · dsimp only
    split
    · exact .ok _
    · exact .error (by decide)
    · exact .error (by decide)
    · exact .ok _
    · exact .ok _
    · exact .ok _
  · exact .error (by decide)

theorem noOverflow_handleRun (hrec : c.reconfig = none) : FailsWith (· ≠ overflow) (c.handleRun now) := by
  unfold handleRun
  dsimp only
  split_ifs with hzero
  · exact .error (by decide)
  · refine .bind (noOverflow_createPartition _ now) fun ⟨d, outs⟩ hd => ?_
    have hnone : d.reconfig = none := (createPartition_ok hd).1.reconfig.trans hrec
    dsimp only
    rw [if_pos hnone]
    exact .ok _

theorem noOverflow_experimentTimeout (hrec : c.reconfig = none) :
    FailsWith (· ≠ overflow) (c.experimentTimeout now) := by
  unfold experimentTimeout
  rw [if_pos hrec]
  refine .bind ?_ fun d _ => .bind ?_ fun b _ => .ok _
  · unfold recordDownTime
    split_ifs
    · split
      · exact .ok _
      · exact .error (by decide)
    · exact .ok _
  · unfold BaseClient.finish
    split_ifs
    · exact .error (by decide)
    · exact .ok _

theorem noOverflow_runCallback (hrec : c.reconfig = none) (hask : c.stopAsk = false) (cb : ClientCallback) :
    FailsWith (· ≠ overflow) (c.runCallback now cb) := by
  cases cb with
  | proposalTimeout id =>
    change FailsWith _ (c.proposalTimeout id)
    unfold proposalTimeout
    split_ifs
    · exact .ok _
    · dsimp only
      split_ifs
      · exact .bind (noOverflow_proposeNormal _ _ _) fun out _ => .ok _
      · exact .ok _
  | reconfigTimeout =>
    refine .map (.bind ?_ fun leader _ => .bind ?_ fun out hout => ?_)
    · unfold BaseClient.reconfigurationNode
      split_ifs
      · exact .ok _
      · exact .error (by decide)
    · unfold BaseClient.proposeReconfiguration
      rw [hrec]
      exact .error (by decide)
    · unfold BaseClient.proposeReconfiguration at hout
      rw [hrec] at hout
      cases hout
  | experimentTimeout => exact noOverflow_experimentTimeout hrec
  | warmupDone =>
    unfold runCallback
    dsimp only
    split_ifs
    · exact .error (by decide)
    · exact .ok _
  | window => exact .ok _
  | recoverPartition => exact .ok _
  | disconnectNonLagging followers laggingFollower leader =>
    refine .bind (.mapM (fun pid => ?_) _) fun outs _ => .ok _
    dsimp only
    split_ifs
    · exact .ok _
    · exact .error (by decide)
  | kill =>
    unfold runCallback
    dsimp only
    split_ifs
    · exact .ok _
    · refine .bind ?_ fun res _ => .ok _
      unfold BaseClient.replyStopAsk
      rw [hask]
      exact .error (by decide)

theorem noOverflow_recordRecovery (c : Client) (now id : ℕ) :
    FailsWith (· ≠ overflow) (c.recordRecovery now id) := by
  unfold recordRecovery
  split
  · split_ifs
    · split
      · exact .ok _
      · exact .error (by decide)
    · exact .ok _
  · exact .ok _

theorem handleNormalResponse_flight (c : Client) (id : ℕ) (latency : Option ℕ) :
    (c.handleNormalResponse id latency).pendingProposals = c.pendingProposals ∧
      (c.handleNormalResponse id latency).numConcurrentProposals = c.numConcurrentProposals := by
  unfold handleNormalResponse
  split <;> exact ⟨rfl, rfl⟩

theorem Counted.len_le (h : Counted s) : s.client.pendingProposals.len ≤ s.client.numConcurrentProposals := by
  by_cases hsetup : s.client.state = .setup
  · rw [(h.setup hsetup).2.2.1]
    exact Nat.zero_le _
  · exact (h.started hsetup).2.le

theorem Counted.noOverflow_handleProposalResp (h : Counted s) (data : Data) (latestLeader leaderRound : ℕ) :
    FailsWith (· ≠ overflow) (s.client.handleProposalResp now data latestLeader leaderRound) := by
  unfold handleProposalResp
  split_ifs with hfin
  · exact .ok _
  · refine .bind (noOverflow_idOf data) fun id _ => ?_
    split
    · exact .ok _
    · rename_i proposalMeta hmeta
      refine .bind (noOverflow_recordRecovery _ now id) fun d hd => ?_
      obtain ⟨downTime, rfl⟩ := recordRecovery_ok hd
      dsimp only
      split_ifs
      · obtain ⟨pid, round, changes, hlearn, -⟩ :=
          (s.client.toBaseClient.removePending id proposalMeta).learnLeader_eq now latestLeader leaderRound
        apply noOverflow_sendConcurrentProposals
        rw [(handleNormalResponse_flight _ _ _).1, (handleNormalResponse_flight _ _ _).2]
        dsimp only
        rw [hlearn]
        refine le_trans ?_ h.len_le
        change (s.client.pendingProposals.erase id).keys.card ≤ _
        rw [Finmap.keys_erase]
        exact Finset.card_le_card (Finset.erase_subset id _)
      · exact .ok _

theorem Counted.noOverflow_receiveMessage (h : Counted s) (m : AtomicBroadcastMsg) :
    FailsWith (· ≠ overflow) (s.client.receiveMessage now m) := by
  cases m with
  | leader pid round =>
    change FailsWith _ (s.client.handleLeader now pid round)
    unfold handleLeader
    split_ifs
    · exact .error (by decide)
    · refine .bind (noOverflow_sendConcurrentProposals h.len_le) fun ⟨d, outs⟩ _ => ?_
      dsimp only
      split_ifs
      · exact .ok _
      · exact .ok _
    · exact .ok _
    · exact .ok _
  | proposal p =>
    refine .bind (noOverflow_idOf _) fun id _ => ?_
    split_ifs
    · exact .bind (noOverflow_proposeNormal _ _ _) fun out _ => .ok _
    · exact .ok _
  | proposalResp data latestLeader leaderRound =>
    exact h.noOverflow_handleProposalResp data latestLeader leaderRound
  | reconfigurationProposal rp => exact .ok _
  | reconfigurationResp latestLeader leaderRound currentConfiguration =>
    change FailsWith _ (s.client.handleReconfigResponse now latestLeader leaderRound currentConfiguration)
    unfold handleReconfigResponse
    rw [Finmap.lookup_eq_none.mpr h.zero]
    exact .ok _

theorem Counted.noOverflow (h : Counted s) (he : BeforeStop e) :
    s.client.handle now e ≠ some (.error overflow) := by
  intro hover
  cases e with
  | stop => exact he
  | peerStop pid => exact he
  | run => exact noOverflow_handleRun h.reconfig _ (Option.some.inj hover) rfl
  | message m => exact h.noOverflow_receiveMessage m _ (Option.some.inj hover) rfl
  | timeout id =>
    obtain ⟨cb, -, hrun⟩ := Option.map_eq_some_iff.mp hover
    dsimp only at hrun
    split_ifs at hrun with hwindow
    · exact noOverflow_runCallback h.reconfig h.stopAsk cb _ hrun rfl
    · exact noOverflow_runCallback (c := { s.client with timers := s.client.timers.remove id }) h.reconfig h.stopAsk
        cb _ hrun rfl

/-- **The client counts every proposal once**, in every run up to `Stop`, from the first `Leader` message on;
and the subtraction of `send_concurrent_proposals` never underflows. -/
theorem client_counts_once (build : Build) (initialConfig : List ℕ) (numConcurrentProposals : ℕ) (nodes : List ℕ)
    (networkScenario : NetworkScenario) {s : Observed}
    (hs : (observed (.new build initialConfig numConcurrentProposals nodes networkScenario none)).ReachableUnder
      (fun _ e => BeforeStop e.2) s) :
    (s.client.state ≠ .setup → CountsOnce s) ∧
      ∀ now e, BeforeStop e → s.client.handle now e ≠ some (.error "attempt to subtract with overflow") := by
  have hcounted : Counted s := hs.invariant
    (counted_new build initialConfig numConcurrentProposals nodes networkScenario)
    fun _ _ _ _ he h hstep => h.step he hstep
  exact ⟨hcounted.countsOnce, fun now e he => hcounted.noOverflow he⟩

/-- One answer in the warm-up and one in the experiment, both repeated, before and after the experiment
ends. -/
def shortExperiment : List (ℕ × ClientEvent) :=
  [(0, .message (.leader 1 1)), (1, .message (.proposalResp (createRawProposal 1) 1 1)), (2, .run),
    (3, .message (.proposalResp (createRawProposal 1) 1 1)),
    (4, .message (.proposalResp (createRawProposal 2) 1 1)), (5, .timeout 4),
    (6, .message (.proposalResp (createRawProposal 2) 1 1))]

theorem shortExperiment_counts_once :
    ∃ s, (observed (.new .release [1] 2 [1] .fullyConnected none)).run ⟨.new .release [1] 2 [1] .fullyConnected none, [], []⟩
        shortExperiment = some s ∧
      (s.client.state, s.client.warmupDecided, s.client.responses.len) = (.finished, 1, 1) ∧ CountsOnce s := by
  have hbefore : ∀ e ∈ shortExperiment, BeforeStop e.2 := by
    simp only [shortExperiment, List.mem_cons, List.not_mem_nil, or_false, forall_eq_or_imp, forall_eq, BeforeStop,
      le_refl, and_self]
  have hend : ((observed (.new .release [1] 2 [1] .fullyConnected none)).run
      ⟨.new .release [1] 2 [1] .fullyConnected none, [], []⟩ shortExperiment).map
        (fun s => (s.client.state, s.client.warmupDecided, s.client.responses.len)) =
      some (.finished, 1, 1) := by
    decide +kernel
  obtain ⟨s, hrun, hs⟩ := Option.map_eq_some_iff.mp hend
  have hreach := Machine.ReachableUnder.init.run
    (Machine.allSteps_of_forall (fun e he _ => hbefore e he) _) hrun
  have hstate : s.client.state = .finished := congrArg Prod.fst hs
  exact ⟨s, hrun, hs, (client_counts_once .release [1] 2 [1] .fullyConnected hreach).1 (by rw [hstate]; decide)⟩

end OmniPaxosBench.Experiment.Client
