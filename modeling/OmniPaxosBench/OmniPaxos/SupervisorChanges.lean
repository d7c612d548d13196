import OmniPaxosBench.OmniPaxos.PaxosComp
import OmniPaxosBench.Lib.Pieces

/-! # What the handlers of a supervisor change

For the parts of the handlers of `PaxosComp` that serve proposals, transfers and the end of a
configuration: the fields they can change, and the kind of messages they send. The modules about one
concern of the supervisor take from here that the other parts do not touch it. -/

namespace OmniPaxosBench.OmniPaxos.PaxosComp

open LeaderElection OmniPaxosBench.Lib

variable {S : Type} {c : PaxosComp S} {r : After S} {out : List CompOut}

/-- A proposal passed on, or a message to the client. -/
def IsProposing : CompOut → Prop
  | .replica _ (.propose _) | .replica _ (.proposeReconfiguration _) | .forward _ _ | .client _ => True
  | _ => False

/-- The active configuration, or one that has just been started. -/
def IsActiveAfter (c : PaxosComp S) (active : ConfigMeta) : Prop :=
  active = c.activeConfig ∨ ∃ k, active = .new k

/-! ### Proposals -/

theorem deserialiseAndPropose_outs {m : AtomicBroadcastMsg} (h : c.deserialiseAndPropose m = some out) :
    ∀ o ∈ out, IsProposing o := by
  unfold deserialiseAndPropose at h
  split at h
  · obtain ⟨idx, -, rfl⟩ := Option.map_eq_some_iff.mp h
    intro o ho
    rw [List.mem_singleton.mp ho]
    trivial
  · obtain ⟨idx, -, rfl⟩ := Option.map_eq_some_iff.mp h
    intro o ho
    rw [List.mem_singleton.mp ho]
    trivial
  · cases h
    nofun

theorem proposeHbProposals_changes (h : c.proposeHbProposals = some r) :
    r.1 = { c with hbProposals := .empty } ∧ ∀ o ∈ r.2, IsProposing o := by
  unfold proposeHbProposals at h
  obtain ⟨ser, hser, h⟩ := Option.bind_eq_some_iff.mp h
  obtain ⟨deser, hdeser, h⟩ := Option.bind_eq_some_iff.mp h
  cases h
  refine ⟨rfl, fun o ho => ?_⟩
  rcases List.mem_append.mp ho with ho | ho
  · obtain ⟨l, hl, hol⟩ := List.mem_flatten.mp ho
    obtain ⟨m, -, hm⟩ := mem_of_mapM hser hl
    exact deserialiseAndPropose_outs hm o hol
  · obtain ⟨l, hl, hol⟩ := List.mem_flatten.mp ho
    obtain ⟨p, -, hp⟩ := mem_of_mapM hdeser hl
    exact deserialiseAndPropose_outs (m := .proposal p) hp o hol

theorem forwardHbProposals_changes {pid : ℕ} (h : c.forwardHbProposals pid = some r) :
    r.1 = { c with hbProposals := .empty } ∧ ∀ o ∈ r.2, IsProposing o := by
  obtain ⟨receiver, -, rfl⟩ := Option.map_eq_some_iff.mp h
  refine ⟨rfl, fun o ho => ?_⟩
  rcases List.mem_append.mp ho with ho | ho
  · obtain ⟨m, -, rfl⟩ := List.mem_map.mp ho
    trivial
  · obtain ⟨p, -, rfl⟩ := List.mem_map.mp ho
    trivial

/-- A new leader: the leader of the active configuration and the proposals held back. -/
theorem handleLeader_changes {d pid round : ℕ} (h : c.handleLeader d pid round = some r) :
    ∃ leader hb, r.1 = { c with
        activeConfig := { c.activeConfig with leader := leader }
        hbProposals := hb } ∧ ∀ o ∈ r.2, IsProposing o := by
  unfold handleLeader at h
  dsimp only at h
  split_ifs at h
  · obtain ⟨r', hr', rfl⟩ := Option.map_eq_some_iff.mp h
    obtain ⟨heq, hout⟩ := proposeHbProposals_changes hr'
    refine ⟨pid, .empty, heq, fun o ho => ?_⟩
    rcases List.mem_cons.mp ho with rfl | ho
    · trivial
    · exact hout o ho
  · obtain ⟨heq, hout⟩ := proposeHbProposals_changes h
    exact ⟨pid, .empty, heq, hout⟩
  · cases h
    exact ⟨pid, c.hbProposals, rfl, nofun⟩
  · obtain ⟨heq, hout⟩ := forwardHbProposals_changes h
    exact ⟨pid, .empty, heq, hout⟩
  · cases h
    exact ⟨c.activeConfig.leader, c.hbProposals, rfl, nofun⟩

/-- A proposal of a client: the proposals held back. -/
theorem handleAtomicBroadcast_changes {m : AtomicBroadcastMsg} (h : c.handleAtomicBroadcast m = some r) :
    ∃ hb, r.1 = { c with hbProposals := hb } ∧ ∀ o ∈ r.2, IsProposing o := by
  unfold handleAtomicBroadcast at h
  dsimp only at h
  split_ifs at h
  · cases h
    exact ⟨c.hbProposals, rfl, nofun⟩
  · cases h
    refine ⟨c.hbProposals, rfl, fun o ho => ?_⟩
    rw [List.mem_singleton.mp ho]
    trivial
  · cases h
    exact ⟨_, rfl, nofun⟩
  · cases h
    exact ⟨_, rfl, nofun⟩
  · obtain ⟨out, hout, rfl⟩ := Option.map_eq_some_iff.mp h
    exact ⟨c.hbProposals, rfl, deserialiseAndPropose_outs hout⟩
  · obtain ⟨leader, -, rfl⟩ := Option.map_eq_some_iff.mp h
    refine ⟨c.hbProposals, rfl, fun o ho => ?_⟩
    rw [List.mem_singleton.mp ho]
    trivial

/-! ### Starting and stopping -/

theorem startReplica_eq {k : ℕ} (h : c.startReplica k = some r) :
    r = ({ c with activeConfig := .new k, nextConfigId := none }, [.start k]) := by
  unfold startReplica at h
  split_ifs at h
  exact (Option.some.inj h).symm

/-- The stop of the client; a replica may be started then. -/
theorem stopComponents_changes (h : c.stopComponents = some r) : 0 < c.replicas ∧
    ∃ active next start, r.1 = { c with
        stopped := true
        activeConfig := active
        nextConfigId := next } ∧ IsActiveAfter c active ∧
      r.2 = .stopElections :: ((List.range (c.replicas - 1)).map (fun i => .replica i (.stop false)) ++
        .replica (c.replicas - 1) (.stop true) :: start) ∧ ∀ o ∈ start, ∃ k, o = .start k := by
  unfold stopComponents at h
  dsimp only at h
  by_cases hnone : c.replicas = 0
  · rw [if_pos hnone] at h
    cases h
  rw [if_neg hnone] at h
  refine ⟨Nat.pos_of_ne_zero hnone, ?_⟩
  by_cases hlate : c.activeConfig.id < c.replicas
  · rw [if_pos hlate] at h
    generalize (if c.activeConfig.id = 0 then c.firstConfigId else c.replicas) = k at h
    obtain ⟨r', hr', rfl⟩ := Option.map_eq_some_iff.mp h
    rw [startReplica_eq hr']
    refine ⟨.new k, none, [.start k], rfl, Or.inr ⟨k, rfl⟩, ?_, fun o ho => ⟨k, List.mem_singleton.mp ho⟩⟩
    simp
  · rw [if_neg hlate] at h
    cases h
    exact ⟨_, _, [], rfl, Or.inl rfl, rfl, nofun⟩

theorem setInitialReplicaState_eq {d : ℕ} {leader : Option Leader} {peers : List ℕ}
    (h : c.setInitialReplicaStateAfterReconfig d leader peers = some out) :
    out = [.setInitialState d peers leader] := by
  unfold setInitialReplicaStateAfterReconfig at h
  split_ifs at h
  cases h
  rfl

theorem getActorpath_eq {pid receiver : ℕ} (h : c.getActorpath pid = some receiver) :
    receiver = pid := by
  unfold getActorpath at h
  split_ifs at h
  cases h
  rfl

section SequenceTraits

variable [SequenceTraits S]

/-- The `ReconfigInit` that a node which continues sends when `m` ends its configuration. -/
def initFor (c : PaxosComp S) (m : FinalMsg S) : ReconfigInit :=
  ⟨m.configId, m.nodes, ⟨c.activeConfig.id, SequenceTraits.getSequenceLen m.finalSequence⟩, c.pid,
    m.skipPrepareUseLeader⟩

/-- The end of a configuration. A node that stays sets the peers of the next replica, starts it and tells
the new nodes. -/
theorem finishConfig_changes {m : FinalMsg S} (h : c.finishConfig m = some r) :
    ∃ active next prev removed, r.1 = { c with
        activeConfig := active
        nextConfigId := next
        prevSequences := prev
        removed := removed } ∧ IsActiveAfter c active ∧
      if c.pid ∈ m.nodes.continuedNodes then ∃ inits,
        r.2 = .setInitialState m.configId (m.nodes.getPeersOf c.pid) m.skipPrepareUseLeader ::
          .start m.configId :: inits ∧
        ∀ o ∈ inits, ∃ pid ∈ m.nodes.newNodes, o = .reconfiguration pid (.init (c.initFor m))
      else r.2 = [] := by
  unfold finishConfig at h
  dsimp only at h
  split_ifs at h with hstays
  · obtain ⟨set, hset, h⟩ := Option.bind_eq_some_iff.mp h
    obtain ⟨r', hr', h⟩ := Option.bind_eq_some_iff.mp h
    obtain ⟨inits, hinits, h⟩ := Option.bind_eq_some_iff.mp h
    cases h
    rw [startReplica_eq hr'] at hinits ⊢
    rw [if_pos hstays, setInitialReplicaState_eq hset]
    refine ⟨_, _, _, _, rfl, Or.inr ⟨_, rfl⟩, inits, rfl, fun o ho => ?_⟩
    obtain ⟨pid, hpid, hx⟩ := mem_of_mapM hinits ho
    obtain ⟨receiver, hreceiver, rfl⟩ := Option.map_eq_some_iff.mp hx
    rw [getActorpath_eq hreceiver]
    exact ⟨pid, hpid, rfl⟩
  · cases h
    rw [if_neg hstays]
    exact ⟨_, _, _, _, rfl, Or.inl rfl, rfl⟩

/-- After the end of a configuration the proposals held back are passed on. -/
theorem handleReconfig_changes {m : FinalMsg S} (h : c.handleReconfig m = some r) :
    ∃ r' hb forwards, c.finishConfig m = some r' ∧ r = ({ r'.1 with hbProposals := hb }, r'.2 ++ forwards) ∧
      ∀ o ∈ forwards, IsProposing o := by
  unfold handleReconfig at h
  obtain ⟨r', hr', h⟩ := Option.bind_eq_some_iff.mp h
  dsimp only at h
  by_cases hempty : r'.1.hbProposals.isEmpty
  · rw [if_neg (not_not.mpr hempty)] at h
    cases h
    refine ⟨r', r'.1.hbProposals, [], hr', ?_, nofun⟩
    rw [List.append_nil]
  · rw [if_pos hempty] at h
    obtain ⟨receiver, -, h⟩ := Option.bind_eq_some_iff.mp h
    obtain ⟨r'', hr'', h⟩ := Option.bind_eq_some_iff.mp h
    cases h
    obtain ⟨heq, hout⟩ := forwardHbProposals_changes hr''
    refine ⟨r', .empty, r''.2, hr', ?_, hout⟩
    rw [heq]

/-! ### Log transfer -/

/-- An answer of a node to a request. -/
structure Replies (c : PaxosComp S) (sr : SegmentRequest) (st : SegmentTransfer) : Prop where
  config : st.configId = sr.configId
  index : st.segment.idx = sr.idx
  metadata : st.metadata.configId = prevConfig sr.configId
  entries : st.succeeded = true → ∃ seq, c.prevSequences.lookup sr.configId = some seq ∧
    st.segment.entries = SequenceTraits.getEntries seq sr.idx.fromIdx sr.idx.toIdx

/-- A request is answered, or handed to the replica. -/
theorem handleSegmentRequest_changes {sr : SegmentRequest} {requestor : ℕ}
    (h : c.handleSegmentRequest sr requestor = some r) :
    ∃ handled, r.1 = { c with handledSeqRequests := handled } ∧ ∀ o ∈ r.2,
      (∃ st, o = .reconfiguration requestor (.segmentTransfer st) ∧ c.Replies sr st) ∨
        ∃ idx metadata, o = .replica idx (.localSegmentReq requestor sr metadata) := by
  unfold handleSegmentRequest at h
  dsimp only at h
  by_cases hskip : c.activeConfig.leader = sr.requestorPid ∨ sr ∈ c.handledSeqRequests
  · rw [if_pos hskip] at h
    cases h
    exact ⟨_, rfl, nofun⟩
  · rw [if_neg hskip] at h
    split at h
    · next seq hseq =>
      cases h
      refine ⟨_, rfl, fun o ho => Or.inl ⟨_, List.mem_singleton.mp ho, rfl, rfl, rfl, fun _ => ?_⟩⟩
      exact ⟨seq, hseq, rfl⟩
    · split_ifs at h
      · obtain ⟨idx, -, rfl⟩ := Option.map_eq_some_iff.mp h
        exact ⟨_, rfl, fun o ho => Or.inr ⟨_, _, List.mem_singleton.mp ho⟩⟩
      · cases h
        exact ⟨_, rfl, fun o ho => Or.inl ⟨_, List.mem_singleton.mp ho, rfl, rfl, rfl, nofun⟩⟩

/-- A segment that is accepted is taken off the pending ones; perhaps the sequence is complete and the
next replica started. -/
theorem acceptSegment_changes {d : ℕ} {seg : SequenceSegment} (h : c.acceptSegment d seg = some r) :
    ∃ active next prev pending received, r.1 = { c with
        activeConfig := active
        nextConfigId := next
        prevSequences := prev
        pendingSegments := pending
        receivedSegments := received } ∧ IsActiveAfter c active ∧
      (∀ d ∈ pending, d ∈ c.pendingSegments) ∧ ∀ o ∈ r.2, ∃ k, o = .start k := by
  unfold acceptSegment at h
  obtain ⟨c₁, hc₁, h⟩ := Option.bind_eq_some_iff.mp h
  obtain ⟨segments, hpending, rfl⟩ := Option.map_eq_some_iff.mp hc₁
  have hmem : ∀ d' ∈ c.pendingSegments.insert d (segments.filter (· ≠ seg.idx)),
      d' ∈ c.pendingSegments := by
    intro d' hd'
    rcases Finmap.mem_insert.mp hd' with rfl | hd'
    · exact HashMap.mem_of_lookup hpending
    · exact hd'
  obtain ⟨rest, -, h⟩ := Option.bind_eq_some_iff.mp h
  split_ifs at h
  · unfold handleCompletedSequenceTransfer at h
    obtain ⟨all, -, h⟩ := Option.bind_eq_some_iff.mp h
    obtain ⟨_, -, h⟩ := Option.bind_eq_some_iff.mp h
    obtain ⟨n, -, h⟩ := Option.bind_eq_some_iff.mp h
    have herase : ∀ d' ∈ (c.pendingSegments.insert d (segments.filter (· ≠ seg.idx))).erase d,
        d' ∈ c.pendingSegments := fun d' hd' => hmem d' (Finmap.mem_erase.mp hd').2
    split_ifs at h
    · rw [startReplica_eq h]
      exact ⟨_, _, _, _, _, rfl, Or.inr ⟨_, rfl⟩, herase, fun o ho => ⟨_, List.mem_singleton.mp ho⟩⟩
    · cases h
      exact ⟨_, _, _, _, _, rfl, Or.inl rfl, herase, nofun⟩
  · cases h
    exact ⟨_, _, _, _, _, rfl, Or.inl rfl, hmem, nofun⟩

/-! ### Events -/

theorem handle_run (h : c.handle .run = some r) : (∃ k, c.startReplica k = some r) ∨ r = (c, []) := by
  have hrun : c.handleRun = some r := h
  unfold handleRun at hrun
  split at hrun
  · exact .inl ⟨_, hrun⟩
  · exact .inr (Option.some.inj hrun).symm

/-- A supervisor that has stopped ignores the transfer. -/
theorem handle_segmentRequest {sr : SegmentRequest} {requestor : ℕ}
    (h : c.handle (.segmentRequest sr requestor) = some r) :
    r = (c, []) ∨ c.handleSegmentRequest sr requestor = some r := by
  simp only [handle] at h
  split_ifs at h
  · exact .inl (Option.some.inj h).symm
  · exact .inr h

theorem handle_segmentTransfer {st : SegmentTransfer} {rnd : ℕ}
    (h : c.handle (.segmentTransfer st rnd) = some r) :
    r = (c, []) ∨ c.handleSegmentTransfer st rnd = some r := by
  simp only [handle] at h
  split_ifs at h
  · exact .inl (Option.some.inj h).symm
  · exact .inr h

end SequenceTraits

end OmniPaxosBench.OmniPaxos.PaxosComp
