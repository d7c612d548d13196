import OmniPaxosBench.OmniPaxos.Shutdown
import OmniPaxosBench.OmniPaxos.LogTransfer

/-! # The supervisor and the stop handshake

Of the events of a `PaxosComp` three matter for the stops: the client's stop, the end of a configuration
and a `ReconfigInit`. Each is described exactly: who is told to stop, whose peers are set and who is told
of the next configuration. All other events are `Steady`. -/

namespace OmniPaxosBench.OmniPaxos.PaxosComp

open LeaderElection OmniPaxosBench.Lib

variable {S : Type}

/-- An output that stops nobody and sets no peers; the `ReconfigInit`s among them meet `I`. -/
def IsCalm (I : ℕ → ReconfigInit → Prop) : CompOut → Prop
  | .replica _ (.stop _) | .setInitialState _ _ _ | .stopElections | .stopPeer _ _ _ => False
  | .reconfiguration receiver (.init r) => I receiver r
  | _ => True

/-- Nobody is stopped, no peers are set, and no `ReconfigInit` is sent. -/
structure Steady (c : PaxosComp S) (r : After S) : Prop where
  pid : r.1.pid = c.pid
  stopped : r.1.stopped = c.stopped
  outs : ∀ I, ∀ o ∈ r.2, IsCalm I o

variable {c c' : PaxosComp S} {r : After S} {out : List CompOut}

theorem steady_nil (hpid : c'.pid = c.pid) (hstopped : c'.stopped = c.stopped) : Steady c (c', []) :=
  ⟨hpid, hstopped, fun _ _ ho => nomatch ho⟩

theorem steady_single {o : CompOut} (hpid : c'.pid = c.pid) (hstopped : c'.stopped = c.stopped)
    (ho : ∀ I, IsCalm I o) : Steady c (c', [o]) := by
  refine ⟨hpid, hstopped, fun I o' ho' => ?_⟩
  rw [List.mem_singleton.mp ho']
  exact ho I

theorem Steady.trans (h : Steady c (c', out)) (h' : Steady c' r) : Steady c (r.1, out ++ r.2) := by
  refine ⟨h'.pid.trans h.pid, h'.stopped.trans h.stopped, fun I o ho => ?_⟩
  rcases List.mem_append.mp ho with ho | ho
  · exact h.outs I o ho
  · exact h'.outs I o ho

/-- The state before may differ in what does not matter. -/
theorem Steady.of_same (h : Steady c' r) (hpid : c'.pid = c.pid) (hstopped : c'.stopped = c.stopped) :
    Steady c r := ⟨h.pid.trans hpid, h.stopped.trans hstopped, h.outs⟩

theorem startReplica_steady {k : ℕ} (h : c.startReplica k = some r) : Steady c r := by
  rw [startReplica_eq h]
  exact steady_single rfl rfl fun _ => trivial

/-! ### Log transfer -/

theorem requests_steady {α : Type} {xs : List α} {f : α → Option CompOut}
    (hpid : c'.pid = c.pid) (hstopped : c'.stopped = c.stopped)
    (hf : ∀ x o, f x = some o → ∃ d pid idx, c.request d pid idx = some o)
    (h : xs.mapM f = some out) : Steady c (c', out) := by
  refine ⟨hpid, hstopped, fun I o ho => ?_⟩
  obtain ⟨x, -, hx⟩ := mem_of_mapM h ho
  obtain ⟨d, pid, idx, hreq⟩ := hf x o hx
  obtain ⟨receiver, rfl⟩ := LogTransfer.request_eq hreq
  trivial

theorem pullSequence_steady {d len : ℕ} {nodes : List ℕ} (h : c.pullSequence d len nodes = some r) :
    Steady c r := by
  unfold pullSequence at h
  split_ifs at h
  obtain ⟨out, hmap, h⟩ := Option.bind_eq_some_iff.mp h
  cases h
  refine requests_steady rfl rfl (fun x o hx => ?_) hmap
  exact ⟨d, x.1, x.2, hx⟩

theorem retryPendingSegments_steady {d : ℕ} (h : c.retryPendingSegments d = some r) : Steady c r := by
  unfold retryPendingSegments at h
  obtain ⟨out, hmap, h⟩ := Option.bind_eq_some_iff.mp h
  cases h
  refine requests_steady rfl rfl (fun x o hx => ?_) hmap
  obtain ⟨pid, -, hreq⟩ := Option.bind_eq_some_iff.mp hx
  exact ⟨d, pid, x.1, hreq⟩

theorem askAgain_steady {d rnd : ℕ} {idx : SegmentIndex} (h : c.askAgain d idx rnd = some r) :
    Steady c r := by
  unfold askAgain at h
  split_ifs at h
  · cases h; exact steady_nil rfl rfl
  · obtain ⟨pid, -, h⟩ := Option.bind_eq_some_iff.mp h
    obtain ⟨o, ho, h⟩ := Option.bind_eq_some_iff.mp h
    cases h
    obtain ⟨receiver, rfl⟩ := LogTransfer.request_eq ho
    exact steady_single rfl rfl fun _ => trivial

theorem addReadyPeer_steady (c : PaxosComp S) (m : ReconfigInit) : Steady c (c.addReadyPeer m, []) := by
  unfold addReadyPeer
  split_ifs
  · exact steady_nil rfl rfl
  · exact steady_nil rfl rfl

section SequenceTraits

variable [SequenceTraits S]

theorem handleSegmentRequest_steady {sr : SegmentRequest} {requestor : ℕ}
    (h : c.handleSegmentRequest sr requestor = some r) : Steady c r := by
  obtain ⟨handled, heq, hout⟩ := handleSegmentRequest_changes h
  refine ⟨by rw [heq], by rw [heq], fun I o ho => ?_⟩
  rcases hout o ho with ⟨st, rfl, -⟩ | ⟨idx, metadata, rfl⟩
  · trivial
  · trivial

theorem acceptSegment_steady {d : ℕ} {seg : SequenceSegment} (h : c.acceptSegment d seg = some r) :
    Steady c r := by
  obtain ⟨active, next, prev, pending, received, heq, -, -, hout⟩ := acceptSegment_changes h
  refine ⟨by rw [heq], by rw [heq], fun I o ho => ?_⟩
  obtain ⟨k, rfl⟩ := hout o ho
  trivial

theorem handleOutcome_steady {st : SegmentTransfer} {rnd : ℕ} (h : c.handleOutcome st rnd = some r) :
    Steady c r := by
  unfold handleOutcome at h
  split_ifs at h
  · exact acceptSegment_steady h
  · exact askAgain_steady h

theorem handleSegmentTransfer_steady {st : SegmentTransfer} {rnd : ℕ}
    (h : c.handleSegmentTransfer st rnd = some r) : Steady c r := by
  unfold handleSegmentTransfer at h
  split_ifs at h
  · cases h; exact steady_nil rfl rfl
  · obtain ⟨r₁, h₁, h⟩ := Option.bind_eq_some_iff.mp h
    obtain ⟨r₂, h₂, h⟩ := Option.bind_eq_some_iff.mp h
    cases h
    have hpull : Steady c r₁ := by
      unfold pullPrevious at h₁
      split_ifs at h₁
      · exact pullSequence_steady h₁
      · cases h₁; exact steady_nil rfl rfl
    exact hpull.trans (handleOutcome_steady h₂)

end SequenceTraits

/-! ### Proposals -/

theorem isCalm_of_proposing {o : CompOut} (h : IsProposing o) (I : ℕ → ReconfigInit → Prop) :
    IsCalm I o := by
  unfold IsProposing at h
  split at h
  · trivial
  · trivial
  · trivial
  · trivial
  · cases h

theorem handleLeader_steady {d pid round : ℕ} (h : c.handleLeader d pid round = some r) :
    Steady c r := by
  obtain ⟨leader, hb, heq, hout⟩ := handleLeader_changes h
  exact ⟨by rw [heq], by rw [heq], fun I o ho => isCalm_of_proposing (hout o ho) I⟩

theorem handleAtomicBroadcast_steady {m : AtomicBroadcastMsg}
    (h : c.handleAtomicBroadcast m = some r) : Steady c r := by
  obtain ⟨hb, heq, hout⟩ := handleAtomicBroadcast_changes h
  exact ⟨by rw [heq], by rw [heq], fun I o ho => isCalm_of_proposing (hout o ho) I⟩

/-! ### Stopping -/

/-- The client stops the node: every leader election and every replica is told so once. A replica may
be started then. -/
theorem stopComponents_eq (h : c.stopComponents = some r) : r.1.pid = c.pid ∧ r.1.stopped = true ∧
    ∃ start, (∀ I, ∀ o ∈ start, IsCalm I o) ∧
      r.2 = .stopElections :: ((List.range (r.1.replicas - 1)).map (fun i => .replica i (.stop false)) ++
        .replica (r.1.replicas - 1) (.stop true) :: start) ∧ 0 < r.1.replicas := by
  obtain ⟨hpos, active, next, start, heq, -, hout, hstart⟩ := stopComponents_changes h
  rw [heq]
  refine ⟨rfl, rfl, start, fun I o ho => ?_, hout, hpos⟩
  obtain ⟨k, rfl⟩ := hstart o ho
  trivial

/-! ### Reconfiguration -/

/-- What a node is told that joins a configuration. -/
def Announces (configId : ℕ) (nodes : Reconfig) (receiver : ℕ) (m : ReconfigInit) : Prop :=
  receiver ∈ nodes.newNodes ∧ m.configId = configId ∧ m.nodes = nodes

variable [SequenceTraits S]

/-- **The events that are not about stopping or reconfiguration are steady.** -/
theorem handle_steady {e : CompEvent S} (he : Shutdown.IsRoutine e) (h : c.handle e = some r) :
    Steady c r := by
  cases e with
  | «local» m =>
    cases m with
    | leader d pid round => exact handleLeader_steady h
    | pendingReconfig data => cases h; exact steady_nil rfl rfl
    | reconfig m => exact he.elim
    | killComponents => exact he.elim
  | atomicBroadcast m => exact handleAtomicBroadcast_steady h
  | init nodes pid iterationId => exact he.elim
  | run =>
    rcases handle_run h with ⟨k, hstart⟩ | rfl
    · exact startReplica_steady hstart
    · exact steady_nil rfl rfl
  | reconfigInit m => exact he.elim
  | segmentRequest sr requestor =>
    rcases handle_segmentRequest h with rfl | hserve
    · exact steady_nil rfl rfl
    · exact handleSegmentRequest_steady hserve
  | segmentTransfer st rnd =>
    rcases handle_segmentTransfer h with rfl | hserve
    · exact steady_nil rfl rfl
    · exact handleSegmentTransfer_steady hserve
  | clientStop => exact he.elim
  | timeout id =>
    obtain ⟨⟨d, timers⟩, -, h⟩ := Option.bind_eq_some_iff.mp h
    exact (retryPendingSegments_steady h).of_same rfl rfl

/-- A configuration ends. A node that stays sets the peers of the next one, and tells the new nodes. -/
theorem finishConfig_eq {m : FinalMsg S} (h : c.finishConfig m = some r) :
    r.1.pid = c.pid ∧ r.1.stopped = c.stopped ∧ ∃ rest,
      (∀ o ∈ rest, IsCalm (Announces m.configId m.nodes) o) ∧
      r.2 = if c.pid ∈ m.nodes.continuedNodes then
        .setInitialState m.configId (m.nodes.getPeersOf c.pid) m.skipPrepareUseLeader :: rest else rest := by
  obtain ⟨active, next, prev, removed, heq, -, hout⟩ := finishConfig_changes h
  rw [heq]
  refine ⟨rfl, rfl, ?_⟩
  split_ifs at hout ⊢ with hstays
  · obtain ⟨inits, houts, hinits⟩ := hout
    refine ⟨.start m.configId :: inits, fun o ho => ?_, houts⟩
    rcases List.mem_cons.mp ho with rfl | ho
    · trivial
    · obtain ⟨pid, hpid, rfl⟩ := hinits o ho
      exact ⟨hpid, rfl, rfl⟩
  · exact ⟨[], nofun, hout⟩

theorem handleReconfig_eq {m : FinalMsg S} (h : c.handleReconfig m = some r) :
    r.1.pid = c.pid ∧ r.1.stopped = c.stopped ∧ ∃ rest,
      (∀ o ∈ rest, IsCalm (Announces m.configId m.nodes) o) ∧
      r.2 = if c.pid ∈ m.nodes.continuedNodes then
        .setInitialState m.configId (m.nodes.getPeersOf c.pid) m.skipPrepareUseLeader :: rest else rest := by
  obtain ⟨r', hb, forwards, hr', rfl, hforwards⟩ := handleReconfig_changes h
  obtain ⟨hpid, hstopped, rest, hcalm, hout⟩ := finishConfig_eq hr'
  refine ⟨hpid, hstopped, rest ++ forwards, fun o ho => ?_, ?_⟩
  · rcases List.mem_append.mp ho with ho | ho
    · exact hcalm o ho
    · exact isCalm_of_proposing (hforwards o ho) _
  · dsimp only
    rw [hout]
    split_ifs
    · rfl
    · rfl

/-- A `ReconfigInit`. A node that is stopped tells all nodes of the configuration, itself among them;
the first one sets the peers. -/
theorem handleReconfigInit_eq {m : ReconfigInit} (h : c.handleReconfigInit m = some r) :
    r.1.pid = c.pid ∧ r.1.stopped = c.stopped ∧
      if c.stopped = true then
        r.2 = (m.nodes.continuedNodes ++ m.nodes.newNodes).map fun p => .stopPeer m.configId p c.pid
      else ∃ rest, (∀ I, ∀ o ∈ rest, IsCalm I o) ∧ (r.2 = rest ∨
        r.2 = .setInitialState m.configId (m.nodes.getPeersOf c.pid) m.skipPrepareUseLeader :: rest) := by
  unfold handleReconfigInit at h
  dsimp only at h
  split_ifs at h with hstop hpaths hlow
  · cases h
    rw [if_pos hstop]
    exact ⟨rfl, rfl, rfl⟩
  · cases h
    rw [if_neg hstop]
    exact ⟨rfl, rfl, [], fun _ _ ho => (nomatch ho), Or.inl rfl⟩
  · rw [if_neg hstop]
    unfold join at h
    split at h
    · unfold beginJoin at h
      obtain ⟨set, hset, h⟩ := Option.bind_eq_some_iff.mp h
      obtain ⟨r', hr', h⟩ := Option.bind_eq_some_iff.mp h
      cases h
      have hready := addReadyPeer_steady { c with nextConfigId := some m.configId } m
      have hstart : Steady ({ c with nextConfigId := some m.configId }.addReadyPeer m) r' := by
        unfold startOrPull at hr'
        split_ifs at hr'
        · exact (startReplica_steady hr').of_same rfl rfl
        · exact pullSequence_steady hr'
      have hall := hready.trans hstart
      refine ⟨hall.pid, hall.stopped, r'.2, hstart.outs, Or.inr ?_⟩
      rw [setInitialReplicaState_eq hset]
      rfl
    · split_ifs at h
      · cases h
        have hready := addReadyPeer_steady c m
        exact ⟨hready.pid, hready.stopped, [], fun _ _ ho => (nomatch ho), Or.inl rfl⟩
      · cases h
        exact ⟨rfl, rfl, [], fun _ _ ho => (nomatch ho), Or.inl rfl⟩

end OmniPaxosBench.OmniPaxos.PaxosComp
