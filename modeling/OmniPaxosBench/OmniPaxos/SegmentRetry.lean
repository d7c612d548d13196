import OmniPaxosBench.OmniPaxos.SupervisorSteps

/-! # Log transfer: retries

A node over several iterations: each `Init` resets its state but leaves the timers, so the retries of an
iteration go on for ever. A `ReconfigInit` comes from a node that continues; a `SegmentTransfer` answers
a request of this iteration or of an earlier one, any number of times. All other events can happen at
any time, with any data. Other nodes keep to this (`input_reconfigInit`, `input_segmentTransfer`).

The peers that are asked again are those whose `ReconfigInit` has arrived, and a sequence is first pulled
when one has arrived. It matters that the code creates no replica beyond that of configuration 2: a node
can join that configuration only, so it never asks for another sequence than that of configuration 1,
and an answer, even a late one, never makes it pull an earlier sequence (`Sound`).

* `retry_safe`: whenever a segment is pending there is a peer to ask, neither of the two divisions is by
  zero, and a retry asks one ready peer for each pending segment. -/

namespace OmniPaxosBench.OmniPaxos

open OmniPaxosBench.Lib PaxosComp LeaderElection

variable {S : Type}

namespace SegmentRetry

open LogTransfer (requestsOf_append others_nil mem_requestsOf IsOther)

/-! ### One node -/

/-- The pending segments of a configuration. -/
def pendingOf (c : PaxosComp S) (configId : ℕ) : List SegmentIndex :=
  (c.pendingSegments.lookup configId).getD []

/-- The event makes the node call `pull_sequence` with these nodes. -/
inductive Pulls [SequenceTraits S] (c : PaxosComp S) : CompEvent S → List ℕ → Prop
  | join (r : ReconfigInit) (running : c.stopped = false) (higher : c.activeConfig.id < r.configId)
      (first : c.nextConfigId = none) (entries : ¬ (r.seqMetadata.len = 1 ∧ r.seqMetadata.configId = 1)) :
      Pulls c (.reconfigInit r) r.nodes.continuedNodes
  | previous (st : SegmentTransfer) (rnd : ℕ) (running : c.stopped = false)
      (unhandled : ¬ c.hasHandledSegment st.configId st.segment.idx)
      (missing : st.metadata.configId ≠ 0 ∧ st.metadata.configId ∉ c.prevSequences ∧
        st.metadata.configId ∉ c.pendingSegments) :
      Pulls c (.segmentTransfer st rnd) c.activeConfigReadyPeers

/-- What a node keeps to: the replicas are those of the configurations 1 and 2 at most, the ready peers
are nodes, and only the sequence of configuration 1 is pulled, after a peer has become ready. -/
structure Sound (c : PaxosComp S) : Prop where
  replicas : c.replicas = 0 ∨ (c.firstConfigId = 1 ∧ c.replicas ≤ 2) ∨
    (c.firstConfigId = 2 ∧ c.replicas ≤ 1)
  ready : ∀ p ∈ c.activeConfigReadyPeers, 1 ≤ p ∧ p ≤ c.nodes
  pending : ∀ d ∈ c.pendingSegments, d = 1 ∧ c.activeConfigReadyPeers ≠ []

/-- Only segments of configuration 1 are asked for. -/
def AsksFirst (out : List CompOut) : Prop := ∀ sr ∈ requestsOf out, sr.configId = 1

/-- What `Sound` is about has not changed, and no segment is asked for. -/
structure Untouched (c : PaxosComp S) (r : After S) : Prop where
  replicas : r.1.replicas = c.replicas
  first : r.1.firstConfigId = c.firstConfigId
  nodes : r.1.nodes = c.nodes
  ready : r.1.activeConfigReadyPeers = c.activeConfigReadyPeers
  pending : r.1.pendingSegments = c.pendingSegments
  requests : requestsOf r.2 = []

variable {c c' : PaxosComp S} {r : After S} {out : List CompOut} {d : ℕ}

theorem Untouched.refl (c : PaxosComp S) : Untouched c (c, []) := ⟨rfl, rfl, rfl, rfl, rfl, rfl⟩

theorem Sound.untouched (h : Sound c) (hr : Untouched c r) : Sound r.1 ∧ AsksFirst r.2 := by
  refine ⟨⟨?_, ?_, ?_⟩, fun sr hsr => ?_⟩
  · rw [hr.replicas, hr.first]
    exact h.replicas
  · rw [hr.ready, hr.nodes]
    exact h.ready
  · rw [hr.pending, hr.ready]
    exact h.pending
  · rw [hr.requests] at hsr
    cases hsr

/-! ### Other events -/

theorem startReplica_untouched (h : c.startReplica d = some r) : Untouched c r := by
  rw [startReplica_eq h]
  exact ⟨rfl, rfl, rfl, rfl, rfl, rfl⟩

theorem requestsOf_proposing (h : ∀ o ∈ out, IsProposing o) : requestsOf out = [] :=
  (others_nil fun o ho => LogTransfer.isOther_of_proposing (h o ho)).1

theorem requestsOf_starts (h : ∀ o ∈ out, ∃ k, o = .start k) : requestsOf out = [] := by
  refine List.filterMap_eq_nil_iff.mpr fun o ho => ?_
  obtain ⟨k, rfl⟩ := h o ho
  rfl

theorem handleLeader_untouched {pid round : ℕ} (h : c.handleLeader d pid round = some r) :
    Untouched c r := by
  obtain ⟨c', out⟩ := r
  obtain ⟨leader, hb, rfl, hout⟩ := handleLeader_changes h
  exact ⟨rfl, rfl, rfl, rfl, rfl, requestsOf_proposing hout⟩

theorem handleAtomicBroadcast_untouched {m : AtomicBroadcastMsg}
    (h : c.handleAtomicBroadcast m = some r) : Untouched c r := by
  obtain ⟨c', out⟩ := r
  obtain ⟨hb, rfl, hout⟩ := handleAtomicBroadcast_changes h
  exact ⟨rfl, rfl, rfl, rfl, rfl, requestsOf_proposing hout⟩

theorem stopComponents_untouched (h : c.stopComponents = some r) : Untouched c r := by
  obtain ⟨c', out⟩ := r
  obtain ⟨-, active, next, start, rfl, -, rfl, hstart⟩ := stopComponents_changes h
  refine ⟨rfl, rfl, rfl, rfl, rfl, ?_⟩
  refine List.filterMap_eq_nil_iff.mpr fun o ho => ?_
  rcases List.mem_cons.mp ho with rfl | ho
  · rfl
  rcases List.mem_append.mp ho with ho | ho
  · obtain ⟨i, -, rfl⟩ := List.mem_map.mp ho
    rfl
  rcases List.mem_cons.mp ho with rfl | ho
  · rfl
  · obtain ⟨k, rfl⟩ := hstart o ho
    rfl

/-! ### Requests and answers -/

/-- The peer of every retry is a ready one. -/
theorem retryPeer_mem (h : c.activeConfigReadyPeers ≠ []) (i : ℕ) :
    ∃ p ∈ c.activeConfigReadyPeers, c.retryPeer i = some p := by
  have hpos : 0 < c.activeConfigReadyPeers.length := List.length_pos_iff.mpr h
  have hmod := Nat.mod_lt i hpos
  unfold retryPeer
  dsimp only
  rw [if_neg hpos.ne']
  generalize hidx : (if i < c.activeConfigReadyPeers.length then c.activeConfigReadyPeers.length - 1 - i
    else c.activeConfigReadyPeers.length - 1 - i % c.activeConfigReadyPeers.length) = idx
  have hlt : idx < c.activeConfigReadyPeers.length := by
    rw [← hidx]
    split_ifs <;> omega
  exact ⟨_, List.getElem_mem hlt, List.getElem?_eq_getElem hlt⟩

theorem Sound.request (h : Sound c) {p : ℕ} (hp : p ∈ c.activeConfigReadyPeers) (idx : SegmentIndex) :
    c.request d p idx = some (.reconfiguration p (.segmentRequest ⟨d, idx, c.pid⟩)) := by
  unfold PaxosComp.request getActorpath
  rw [if_pos (h.ready p hp)]
  rfl

theorem mem_of_pendingOf (hne : pendingOf c d ≠ []) : d ∈ c.pendingSegments := by
  cases hl : c.pendingSegments.lookup d with
  | none =>
    unfold pendingOf at hne
    rw [hl] at hne
    exact absurd rfl hne
  | some l => exact HashMap.mem_of_lookup hl

theorem Sound.ready_ne_nil (h : Sound c) (hne : pendingOf c d ≠ []) : c.activeConfigReadyPeers ≠ [] :=
  (h.pending d (mem_of_pendingOf hne)).2

/-- **A retry** asks a ready peer for each pending segment. -/
theorem Sound.retry (h : Sound c) (configId : ℕ) : ∃ peer : ℕ → ℕ,
    (∀ i < (pendingOf c configId).length, peer i ∈ c.activeConfigReadyPeers) ∧
    c.retryPendingSegments configId = some ({ c with timers := c.timers.schedule configId },
      (pendingOf c configId).zipIdx.map fun (idx, i) =>
        .reconfiguration (peer i) (.segmentRequest ⟨configId, idx, c.pid⟩)) := by
  have hready : pendingOf c configId ≠ [] → c.activeConfigReadyPeers ≠ [] := h.ready_ne_nil
  refine ⟨fun i => (c.retryPeer i).getD 0, fun i hi => ?_, ?_⟩
  · obtain ⟨p, hp, heq⟩ := retryPeer_mem (hready (List.ne_nil_of_length_pos (by omega))) i
    dsimp only
    rw [heq]
    exact hp
  · have hmap : (pendingOf c configId).zipIdx.mapM (fun x => do
        let pid ← c.retryPeer x.2
        c.request configId pid x.1) = some ((pendingOf c configId).zipIdx.map fun x =>
          .reconfiguration ((c.retryPeer x.2).getD 0) (.segmentRequest ⟨configId, x.1, c.pid⟩)) := by
      refine mapM_eq_some fun x hx => ?_
      have hne : pendingOf c configId ≠ [] := List.ne_nil_of_mem (List.fst_mem_of_mem_zipIdx hx)
      obtain ⟨p, hp, heq⟩ := retryPeer_mem (hready hne) x.2
      rw [heq]
      exact h.request hp x.1
    exact Option.bind_eq_some_iff.mpr ⟨_, hmap, rfl⟩

/-- A pull of the first sequence, with a peer ready. -/
theorem Sound.pull (h : Sound c) (hready : c.activeConfigReadyPeers ≠ []) {len : ℕ} {nodes : List ℕ}
    (hres : c.pullSequence 1 len nodes = some r) : Sound r.1 ∧ AsksFirst r.2 := by
  obtain ⟨-, heq, hreq, -⟩ := LogTransfer.pullSequence_eq hres
  rw [heq]
  refine ⟨⟨h.replicas, h.ready, fun d hd => ?_⟩, fun sr hsr => ?_⟩
  · rcases Finmap.mem_insert.mp hd with rfl | hd
    · exact ⟨rfl, hready⟩
    · exact h.pending d hd
  · rw [hreq] at hsr
    obtain ⟨i, -, rfl⟩ := List.mem_map.mp hsr
    rfl

theorem Sound.timeout (h : Sound c) (hres : c.retryPendingSegments d = some r) :
    Sound r.1 ∧ AsksFirst r.2 := by
  obtain ⟨peer, -, heq⟩ := h.retry d
  rw [hres] at heq
  cases heq
  refine ⟨⟨h.replicas, h.ready, h.pending⟩, fun sr hsr => ?_⟩
  obtain ⟨pid, hmem⟩ := mem_requestsOf.mp hsr
  obtain ⟨⟨idx, i⟩, hx, heq⟩ := List.mem_map.mp hmem
  cases heq
  have hne : pendingOf c d ≠ [] := List.ne_nil_of_mem (List.fst_mem_of_mem_zipIdx hx)
  exact (h.pending d (mem_of_pendingOf hne)).1

theorem Sound.askAgain (h : Sound c) {idx : SegmentIndex} {rnd : ℕ} (hres : c.askAgain 1 idx rnd = some r) :
    Sound r.1 ∧ AsksFirst r.2 := by
  obtain ⟨heq, -, hreq⟩ := LogTransfer.askAgain_eq hres
  rw [heq]
  exact ⟨h, fun sr hsr => (hreq sr hsr).1⟩

/-- A node can join configuration 2 only. -/
theorem Sound.configId_eq (h : Sound c) {leader : Option Leader} {peers : List ℕ} (hlow : 2 ≤ d)
    (hhigh : d < 2 ^ 32) (hset : c.setInitialReplicaStateAfterReconfig d leader peers = some out) :
    d = 2 := by
  unfold setInitialReplicaStateAfterReconfig at hset
  split_ifs at hset with hif
  obtain ⟨hidx, -, -⟩ := hif
  unfold replicaIdx at hidx
  dsimp only at hidx
  split_ifs at hidx with hlt
  · rcases h.replicas with hzero | ⟨hfirst, hle⟩ | ⟨hfirst, hle⟩
    · omega
    · rw [hfirst] at hlt
      omega
    · rw [hfirst] at hlt
      omega
  · cases hidx

theorem addReadyPeer_eq {m : ReconfigInit} (h : m.sender ∈ m.nodes.continuedNodes) :
    c.addReadyPeer m = { c with activeConfigReadyPeers := c.activeConfigReadyPeers ++ [m.sender] } :=
  if_pos h

theorem Sound.addReadyPeer (h : Sound c) {m : ReconfigInit} (hsender : m.sender ∈ m.nodes.continuedNodes)
    (hnode : 1 ≤ m.sender ∧ m.sender ≤ c.nodes) : Sound (c.addReadyPeer m) := by
  rw [addReadyPeer_eq hsender]
  refine ⟨h.replicas, fun p hp => ?_, fun d hd => ⟨(h.pending d hd).1, ?_⟩⟩
  · rcases List.mem_append.mp hp with hp | hp
    · exact h.ready p hp
    · rw [List.mem_singleton.mp hp]
      exact hnode
  · exact List.append_ne_nil_of_right_ne_nil _ (List.cons_ne_nil _ _)

/-! ### A new iteration -/

theorem replica_created {k : ℕ} {nodes : Option (List ℕ)} (h : c.createReplica k nodes = some r) :
    ∃ peers, r = ({ c with replicas := c.replicas + 1 }, [.create k peers]) := by
  unfold createReplica at h
  obtain ⟨-, h⟩ := Option.ite_none_right_eq_some.mp h
  exact ⟨_, (Option.some.inj h).symm⟩

theorem createInitial_cases (h : c.createInitial = some r) : r = (c, []) ∨ ∃ peers,
    r = ({ c with nextConfigId := some 1, replicas := c.replicas + 1, firstConfigId := 1 },
      [.create 1 peers]) := by
  unfold createInitial at h
  split_ifs at h
  · obtain ⟨r', hr', rfl⟩ := Option.map_eq_some_iff.mp h
    obtain ⟨peers, rfl⟩ := replica_created hr'
    exact Or.inr ⟨peers, rfl⟩
  · cases h
    exact Or.inl rfl

theorem createSpare_cases (h : c.createSpare = some r) : r = (c, []) ∨ ∃ peers,
    r = ({ c with
      replicas := c.replicas + 1
      firstConfigId := if c.firstConfigId ≠ 1 then 2 else c.firstConfigId }, [.create 2 peers]) := by
  unfold createSpare at h
  split_ifs at h
  · obtain ⟨r', hr', rfl⟩ := Option.map_eq_some_iff.mp h
    obtain ⟨peers, rfl⟩ := replica_created hr'
    refine Or.inr ⟨peers, ?_⟩
    dsimp only
    split_ifs
    · rfl
    · rfl
  · cases h
    exact Or.inl rfl

/-- Nothing is pending yet. -/
theorem sound_of_empty (hreplicas : c.replicas = 0 ∨ (c.firstConfigId = 1 ∧ c.replicas ≤ 2) ∨
    (c.firstConfigId = 2 ∧ c.replicas ≤ 1)) (hready : c.activeConfigReadyPeers = [])
    (hpending : c.pendingSegments = ∅) : Sound c := by
  refine ⟨hreplicas, ?_, fun d hd => ?_⟩
  · rw [hready]
    nofun
  · rw [hpending] at hd
    exact absurd hd Finmap.notMem_empty

/-- **A new iteration** starts from a clean state; the replicas are those of the configurations 1 and 2
at most. -/
theorem sound_handleInit {nodes pid iterationId : ℕ} (hres : c.handleInit nodes pid iterationId = some r) :
    Sound r.1 ∧ AsksFirst r.2 := by
  unfold handleInit at hres
  obtain ⟨r₁, h₁, hres⟩ := Option.bind_eq_some_iff.mp hres
  obtain ⟨r₂, h₂, hres⟩ := Option.bind_eq_some_iff.mp hres
  cases hres
  rcases createInitial_cases h₁ with rfl | ⟨peers₁, rfl⟩
  · rcases createSpare_cases h₂ with rfl | ⟨peers₂, rfl⟩
    · exact ⟨sound_of_empty (Or.inl rfl) rfl rfl, nofun⟩
    · exact ⟨sound_of_empty (Or.inr (Or.inr ⟨rfl, le_rfl⟩)) rfl rfl, nofun⟩
  · rcases createSpare_cases h₂ with rfl | ⟨peers₂, rfl⟩
    · exact ⟨sound_of_empty (Or.inr (Or.inl ⟨rfl, Nat.le_succ 1⟩)) rfl rfl, nofun⟩
    · exact ⟨sound_of_empty (Or.inr (Or.inl ⟨rfl, le_rfl⟩)) rfl rfl, nofun⟩

section SequenceTraits

variable [SequenceTraits S]

theorem handleSegmentRequest_untouched {sr : SegmentRequest} {requestor : ℕ}
    (h : c.handleSegmentRequest sr requestor = some r) : Untouched c r := by
  have hrequests := (others_nil (LogTransfer.handleSegmentRequest_other h).2).1
  obtain ⟨c', out⟩ := r
  obtain ⟨handled, rfl, -⟩ := handleSegmentRequest_changes h
  exact ⟨rfl, rfl, rfl, rfl, rfl, hrequests⟩

theorem handleReconfig_untouched {m : FinalMsg S} (h : c.handleReconfig m = some r) :
    Untouched c r := by
  obtain ⟨⟨c', out⟩, hb, forwards, hr', rfl, hforwards⟩ := handleReconfig_changes h
  obtain ⟨active, next, prev, removed, rfl, -, hout⟩ := finishConfig_changes hr'
  refine ⟨rfl, rfl, rfl, rfl, rfl, ?_⟩
  rw [requestsOf_append, requestsOf_proposing hforwards, List.append_nil]
  split_ifs at hout
  · obtain ⟨inits, houts, hinits⟩ := hout
    rw [houts]
    refine List.filterMap_eq_nil_iff.mpr fun o ho => ?_
    rcases List.mem_cons.mp ho with rfl | ho
    · rfl
    rcases List.mem_cons.mp ho with rfl | ho
    · rfl
    · obtain ⟨pid, -, rfl⟩ := hinits o ho
      rfl
  · rw [hout]
    rfl

/-- A segment arrives, and perhaps the sequence is complete. -/
theorem Sound.acceptSegment (h : Sound c) {seg : SequenceSegment}
    (hres : c.acceptSegment d seg = some r) : Sound r.1 ∧ AsksFirst r.2 := by
  obtain ⟨active, next, prev, pending, received, heq, -, hpending, hout⟩ := acceptSegment_changes hres
  rw [heq]
  refine ⟨⟨h.replicas, h.ready, fun d' hd' => h.pending d' (hpending d' hd')⟩, fun sr hsr => ?_⟩
  rw [requestsOf_starts hout] at hsr
  cases hsr

/-- An answer to a request for the first sequence. -/
theorem Sound.segmentTransfer (h : Sound c) {st : SegmentTransfer} {rnd : ℕ} (hconfig : st.configId = 1)
    (hmeta : st.metadata.configId = 0) (hres : c.handleSegmentTransfer st rnd = some r) :
    Sound r.1 ∧ AsksFirst r.2 := by
  unfold handleSegmentTransfer at hres
  split_ifs at hres
  · cases hres
    exact h.untouched (Untouched.refl c)
  · have hprev : c.pullPrevious st.metadata = some (c, []) := if_neg fun hmissing => hmissing.1 hmeta
    obtain ⟨r₀, h₀, hres⟩ := Option.bind_eq_some_iff.mp hres
    rw [hprev] at h₀
    cases h₀
    obtain ⟨r', hr', hres⟩ := Option.bind_eq_some_iff.mp hres
    cases hres
    unfold handleOutcome at hr'
    split_ifs at hr'
    · exact h.acceptSegment hr'
    · rw [hconfig] at hr'
      exact h.askAgain hr'

/-- A `ReconfigInit` from a node that continues. -/
theorem Sound.reconfigInit (h : Sound c) {m : ReconfigInit} (hsender : m.sender ∈ m.nodes.continuedNodes)
    (hnode : 1 ≤ m.sender ∧ m.sender ≤ c.nodes) (hnext : m.configId = m.seqMetadata.configId + 1)
    (hlow : 1 ≤ m.seqMetadata.configId) (hhigh : m.configId < 2 ^ 32)
    (hres : c.handleReconfigInit m = some r) : Sound r.1 ∧ AsksFirst r.2 := by
  unfold handleReconfigInit at hres
  dsimp only at hres
  split_ifs at hres
  · cases hres
    refine h.untouched ⟨rfl, rfl, rfl, rfl, rfl, List.filterMap_eq_nil_iff.mpr fun o ho => ?_⟩
    obtain ⟨p, -, rfl⟩ := List.mem_map.mp ho
    rfl
  · cases hres
    exact h.untouched (Untouched.refl c)
  · unfold join at hres
    split at hres
    · unfold beginJoin at hres
      obtain ⟨set, hset, hres⟩ := Option.bind_eq_some_iff.mp hres
      obtain ⟨r', hr', hres⟩ := Option.bind_eq_some_iff.mp hres
      cases hres
      have hstart : Sound { c with nextConfigId := some m.configId } := ⟨h.replicas, h.ready, h.pending⟩
      have htwo : m.configId = 2 := hstart.configId_eq (by omega) hhigh hset
      have hone : m.seqMetadata.configId = 1 := by omega
      have hready := hstart.addReadyPeer hsender hnode
      have hr : Sound r'.1 ∧ AsksFirst r'.2 := by
        unfold startOrPull at hr'
        split_ifs at hr'
        · refine Sound.untouched ?_ (startReplica_untouched hr')
          exact ⟨hready.replicas, hready.ready, hready.pending⟩
        · rw [hone] at hr'
          refine hready.pull ?_ hr'
          rw [addReadyPeer_eq hsender]
          exact List.append_ne_nil_of_right_ne_nil _ (List.cons_ne_nil _ _)
      refine ⟨hr.1, ?_⟩
      rw [setInitialReplicaState_eq hset]
      exact hr.2
    · split_ifs at hres
      · cases hres
        exact ⟨h.addReadyPeer hsender hnode, nofun⟩
      · cases hres
        exact h.untouched (Untouched.refl c)

/-- **One event** keeps a node sound, and asks for the first sequence only. -/
theorem Sound.handle (h : Sound c) {e : CompEvent S}
    (hinit : ∀ m, e = .reconfigInit m → m.sender ∈ m.nodes.continuedNodes ∧
      (1 ≤ m.sender ∧ m.sender ≤ c.nodes) ∧ m.configId = m.seqMetadata.configId + 1 ∧
      1 ≤ m.seqMetadata.configId ∧ m.configId < 2 ^ 32)
    (htransfer : ∀ st rnd, e = .segmentTransfer st rnd → st.configId = 1 ∧ st.metadata.configId = 0)
    (hres : c.handle e = some r) : Sound r.1 ∧ AsksFirst r.2 := by
  cases e with
  | «local» m =>
    cases m with
    | leader d pid round => exact h.untouched (handleLeader_untouched hres)
    | pendingReconfig data =>
      cases hres
      exact h.untouched ⟨rfl, rfl, rfl, rfl, rfl, rfl⟩
    | reconfig m => exact h.untouched (handleReconfig_untouched hres)
    | killComponents =>
      cases hres
      exact ⟨⟨Or.inl rfl, h.ready, h.pending⟩, nofun⟩
  | atomicBroadcast m => exact h.untouched (handleAtomicBroadcast_untouched hres)
  | init nodes pid iterationId => exact sound_handleInit hres
  | run =>
    rcases handle_run hres with ⟨k, hstart⟩ | rfl
    · exact h.untouched (startReplica_untouched hstart)
    · exact h.untouched (Untouched.refl c)
  | reconfigInit m =>
    obtain ⟨hsender, hnode, hnext, hlow, hhigh⟩ := hinit m rfl
    exact h.reconfigInit hsender hnode hnext hlow hhigh hres
  | segmentRequest sr requestor =>
    rcases handle_segmentRequest hres with rfl | hserve
    · exact h.untouched (Untouched.refl c)
    · exact h.untouched (handleSegmentRequest_untouched hserve)
  | segmentTransfer st rnd =>
    rcases handle_segmentTransfer hres with rfl | hserve
    · exact h.untouched (Untouched.refl c)
    · obtain ⟨hconfig, hmeta⟩ := htransfer st rnd rfl
      exact h.segmentTransfer hconfig hmeta hserve
  | clientStop => exact h.untouched (stopComponents_untouched hres)
  | timeout id =>
    obtain ⟨⟨d, T⟩, -, hres⟩ := Option.bind_eq_some_iff.mp hres
    have hsound : Sound { c with timers := T } := ⟨h.replicas, h.ready, h.pending⟩
    exact hsound.timeout hres

end SequenceTraits

/-! ### Several iterations -/

/-- How a node is created. -/
structure Launch where
  initialConfiguration : List ℕ
  isReconfigExp : Bool
  simulatePartition : Bool
  leaderElection : ElectionKind

/-- An answer to a request, failed or not. -/
def IsAnswer (sr : SegmentRequest) (st : SegmentTransfer) : Prop :=
  st.configId = sr.configId ∧ st.segment.idx = sr.idx ∧ st.metadata.configId = prevConfig sr.configId

instance (sr : SegmentRequest) (st : SegmentTransfer) : Decidable (IsAnswer sr st) :=
  inferInstanceAs (Decidable (_ ∧ _))

/-- A `ReconfigInit` is sent by a node that continues, after the configuration before; a transfer
answers a request of any iteration. -/
def Input (s : LogTransfer S) : CompEvent S → Prop
  | .reconfigInit m => m.sender ∈ m.nodes.continuedNodes ∧
      (1 ≤ m.sender ∧ m.sender ≤ s.comp.nodes) ∧ m.configId = m.seqMetadata.configId + 1 ∧
      1 ≤ m.seqMetadata.configId ∧ m.configId < 2 ^ 32
  | .segmentTransfer st _ => ∃ sr ∈ requestsOf s.outs, IsAnswer sr st
  | _ => True

instance (s : LogTransfer S) : ∀ e, Decidable (Input s e)
  | .reconfigInit _ => inferInstanceAs (Decidable (_ ∧ _))
  | .segmentTransfer _ _ => inferInstanceAs (Decidable (∃ sr ∈ requestsOf s.outs, _))
  | .local _ | .atomicBroadcast _ | .init _ _ _ | .run | .segmentRequest _ _ | .clientStop | .timeout _ =>
    inferInstanceAs (Decidable True)

/-- The transfers that can arrive are of configuration 1, which has none before it. -/
theorem transfer_first {s : LogTransfer S} (hasked : AsksFirst s.outs) {st : SegmentTransfer} {rnd : ℕ}
    (hin : Input s (.segmentTransfer st rnd)) : st.configId = 1 ∧ st.metadata.configId = 0 := by
  obtain ⟨sr, hsr, hconfig, -, hmeta⟩ := hin
  rw [hasked sr hsr] at hconfig hmeta
  exact ⟨hconfig, hmeta⟩

variable [SequenceTraits S]

/-- The node, and all it has sent and done in all iterations. -/
def machine (L : Launch) : Machine (LogTransfer S) (CompEvent S) where
  init := ⟨.new L.initialConfiguration L.isReconfigExp L.simulatePartition L.leaderElection, []⟩
  step s e := if Input s e then (s.comp.handle e).map s.after else none

variable {s t : LogTransfer S} {L : Launch}

/-- **What other nodes send**: a `ReconfigInit` that a node sends when its configuration has ended is one that
this node can get, as the node continues. -/
theorem input_reconfigInit {m : FinalMsg S} {pid : ℕ} {i : ReconfigInit} (h : c.finishConfig m = some r)
    (hi : .reconfiguration pid (.init i) ∈ r.2) (hnode : 1 ≤ i.sender ∧ i.sender ≤ s.comp.nodes)
    (hactive : 1 ≤ c.activeConfig.id) (hnext : i.configId = c.activeConfig.id + 1)
    (hfit : i.configId < 2 ^ 32) : Input s (.reconfigInit i) := by
  have hsent : i.sender ∈ i.nodes.continuedNodes ∧ i.seqMetadata.configId = c.activeConfig.id := by
    obtain ⟨active, next, prev, removed, -, -, hout⟩ := finishConfig_changes h
    split_ifs at hout with hstays
    · obtain ⟨inits, houts, hinits⟩ := hout
      rw [houts] at hi
      rcases List.mem_cons.mp hi with heq | hi
      · cases heq
      rcases List.mem_cons.mp hi with heq | hi
      · cases heq
      · obtain ⟨p, -, heq⟩ := hinits _ hi
        cases heq
        exact ⟨hstays, rfl⟩
    · rw [hout] at hi
      cases hi
  refine ⟨hsent.1, hnode, ?_, ?_, hfit⟩
  · rw [hsent.2]
    exact hnext
  · rw [hsent.2]
    exact hactive

/-- **What other nodes send**: the answer of a node to a request of this node. -/
theorem input_segmentTransfer {sr : SegmentRequest} {requestor pid rnd : ℕ} {st : SegmentTransfer}
    (hasked : sr ∈ requestsOf s.outs) (h : c.handleSegmentRequest sr requestor = some r)
    (hst : .reconfiguration pid (.segmentTransfer st) ∈ r.2) : Input s (.segmentTransfer st rnd) := by
  obtain ⟨handled, -, hout⟩ := handleSegmentRequest_changes h
  rcases hout _ hst with ⟨st', heq, hreplies⟩ | ⟨idx, metadata, heq⟩
  · cases heq
    exact ⟨sr, hasked, hreplies.config, hreplies.index, hreplies.metadata⟩
  · cases heq

theorem sound_of_reachable (h : (machine L).Reachable s) : Sound s.comp ∧ AsksFirst s.outs := by
  refine h.invariant (P := fun s => Sound s.comp ∧ AsksFirst s.outs) ?_ ?_
  · exact ⟨sound_of_empty (Or.inl rfl) rfl rfl, nofun⟩
  · intro s e t _ ⟨hsound, hasked⟩ hstep
    have hstep : (if Input s e then (s.comp.handle e).map s.after else none) = some t := hstep
    obtain ⟨hin, hstep⟩ := Option.ite_none_right_eq_some.mp hstep
    obtain ⟨r, hr, rfl⟩ := Option.map_eq_some_iff.mp hstep
    have hr : Sound r.1 ∧ AsksFirst r.2 := by
      refine hsound.handle ?_ ?_ hr
      · rintro m rfl
        exact hin
      · rintro st rnd rfl
        exact transfer_first hasked hin
    refine ⟨hr.1, fun sr hsr => ?_⟩
    have hsr : sr ∈ requestsOf (s.outs ++ r.2) := hsr
    rw [requestsOf_append] at hsr
    rcases List.mem_append.mp hsr with hsr | hsr
    · exact hasked sr hsr
    · exact hr.2 sr hsr

/-- What is to hold of retries in a state. -/
structure RetrySafe (s : LogTransfer S) : Prop where
  /-- While a segment is pending some peer is ready. -/
  ready : ∀ d, pendingOf s.comp d ≠ [] → s.comp.activeConfigReadyPeers ≠ []
  /-- Whenever a sequence is pulled there is a node to pull from. -/
  pulls : ∀ e nodes, Input s e → Pulls s.comp e nodes → nodes ≠ []
  /-- A retry sends one request for each entry of the list of pending segments, to a ready peer. -/
  retry : ∀ d, ∃ peer : ℕ → ℕ,
    (∀ i < (pendingOf s.comp d).length, peer i ∈ s.comp.activeConfigReadyPeers) ∧
    s.comp.retryPendingSegments d = some ({ s.comp with timers := s.comp.timers.schedule d },
      (pendingOf s.comp d).zipIdx.map fun (idx, i) =>
        .reconfiguration (peer i) (.segmentRequest ⟨d, idx, s.comp.pid⟩))
  /-- A retry that is due does not panic. -/
  timeout : ∀ id, (s.comp.timers.fire id).isSome → (s.comp.handle (.timeout id)).isSome

/-- **Retries are safe** in every state of every run, over any number of iterations. The list of what is
pending may hold a segment several times; a retry sends one request for each of its entries. -/
theorem retry_safe {L : Launch} {s : LogTransfer S} (h : (machine L).Reachable s) : RetrySafe s := by
  obtain ⟨hsound, hasked⟩ := sound_of_reachable h
  refine ⟨fun d hne => hsound.ready_ne_nil hne, fun e nodes hin hpulls => ?_, hsound.retry, fun id hid => ?_⟩
  · cases hpulls with
    | join m => exact List.ne_nil_of_mem hin.1
    | previous st rnd running unhandled missing =>
      exact absurd (transfer_first hasked hin).2 missing.1
  · obtain ⟨⟨d, T⟩, hfire⟩ := Option.isSome_iff_exists.mp hid
    have hT : Sound { s.comp with timers := T } := ⟨hsound.replicas, hsound.ready, hsound.pending⟩
    obtain ⟨peer, -, hretry⟩ := hT.retry d
    have heq : s.comp.handle (.timeout id) = { s.comp with timers := T }.retryPendingSegments d := by
      simp only [PaxosComp.handle]
      rw [hfire]
      rfl
    rw [heq, hretry]
    rfl

/-- Node 4 joins configuration 2 and asks node 1 again for both segments. In the next iteration the
retry goes on before anything is pending, and node 2 announces the configuration. -/
def twoIterations : List (CompEvent (List Entry)) :=
  [.init 4 4 0, .reconfigInit ⟨2, ⟨[1, 2], [4]⟩, ⟨1, 4⟩, 1, none⟩, .timeout 0, .init 4 4 1, .timeout 1,
    .reconfigInit ⟨2, ⟨[1, 2], [4]⟩, ⟨1, 4⟩, 2, none⟩]

theorem twoIterations_safe : ∃ s, (machine ⟨[1, 2, 3], true, false, .ble⟩).run
      (machine ⟨[1, 2, 3], true, false, .ble⟩).init twoIterations = some s ∧
    pendingOf s.comp 1 = [⟨0, 2⟩, ⟨2, 4⟩] ∧ s.comp.activeConfigReadyPeers = [2] ∧ RetrySafe s := by
  refine ⟨_, rfl, by decide, by decide, retry_safe (L := ⟨[1, 2, 3], true, false, .ble⟩) ?_⟩
  exact Machine.reachable_of_run (show (machine ⟨[1, 2, 3], true, false, .ble⟩).run
    (machine ⟨[1, 2, 3], true, false, .ble⟩).init twoIterations = some _ from rfl)

end SegmentRetry

end OmniPaxosBench.OmniPaxos
