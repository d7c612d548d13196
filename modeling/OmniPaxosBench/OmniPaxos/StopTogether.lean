import OmniPaxosBench.OmniPaxos.StopReplicas

/-! # The stop handshake: packets and supervisors

The invariant under the delivery of a packet to a component, and under what a supervisor does: events
that stop nobody and set no peers (`inv_steady`), setting the peers of the second configuration
(`inv_learn`) and the client's stop (`inv_clientStop`). The packets of the leader elections do not concern
the replicas, and the other way round, so each half of the invariant is framed by counting. -/

namespace OmniPaxosBench.OmniPaxos

open LeaderElection OmniPaxosBench.Lib PaxosComp ConfigComps

/-- Packets of the handshake of the leader elections. -/
def Packet.isBle : Packet → Bool
  | .bleStop _ _ _ | .blePeer _ _ _ => true
  | _ => false

/-- Packets of the handshake of the replicas. -/
def Packet.isReplica : Packet → Bool
  | .replicaStop _ _ _ | .sendStop _ _ _ _ | .commPeer _ _ _ | .stopMsg _ _ _ => true
  | _ => false

namespace Shutdown

variable {P S M : Type} {D : Deployment P} {s t : Shutdown P S} {k i p : ℕ}

/-! ### Frames -/

theorem bleInv_frame (h : BleInv D s)
    (hdata : ∀ k i, (t.comps k i).bleHandshake = (s.comps k i).bleHandshake)
    (hcomp : ∀ j, (t.comp j).stopped = (s.comp j).stopped)
    (hcount : ∀ q : Packet → Bool, (∀ m, q m = true → m.isBle = true) →
      t.flight.countP q = s.flight.countP q) : BleInv D t := by
  refine bleInv_congr h hdata (fun k i p => hcount _ fun m hm => ?_) fun k i => ?_
  · rw [beq_iff_eq.mp hm]; rfl
  · have hstops : t.flight.count (.bleStop k i i) = s.flight.count (.bleStop k i i) :=
      hcount _ fun m hm => by rw [beq_iff_eq.mp hm]; rfl
    rw [hstops, hcomp]
    exact h.stops k i

theorem replicaInv_frame (h : ReplicaInv D s)
    (hdata : ∀ k i, (t.comps k i).replicaHandshake = (s.comps k i).replicaHandshake)
    (hcommunicator : ∀ k i, (t.comps k i).communicator.peers = (s.comps k i).communicator.peers)
    (hpid : ∀ k i, (t.comps k i).replica.pid = (s.comps k i).replica.pid)
    (hcomp : ∀ j, (t.comp j).stopped = (s.comp j).stopped)
    (hcount : ∀ q : Packet → Bool, (∀ m, q m = true → m.isReplica = true) →
      t.flight.countP q = s.flight.countP q) : ReplicaInv D t := by
  have hmsg : ∀ k i p, t.flight.count (.stopMsg k i p) = s.flight.count (.stopMsg k i p) :=
    fun k i p => hcount _ fun m hm => by rw [beq_iff_eq.mp hm]; rfl
  have hpeer : ∀ k i p, t.flight.count (.commPeer k i p) = s.flight.count (.commPeer k i p) :=
    fun k i p => hcount _ fun m hm => by rw [beq_iff_eq.mp hm]; rfl
  have hsends : ∀ k i, t.sendStops k i = s.sendStops k i := by
    refine fun k i => hcount _ fun m hm => ?_
    cases m with
    | sendStop => rfl
    | _ => cases hm
  have hstops : ∀ k i, t.replicaStops k i = s.replicaStops k i := by
    refine fun k i => hcount _ fun m hm => ?_
    cases m with
    | replicaStop => rfl
    | _ => cases hm
  refine replicaInv_congr h hdata hcommunicator hpid (fun k i p => ?_) (fun k i => (hsends k i).le)
    fun k i => ?_
  · rw [replicaGroup_flight, replicaGroup_flight, hmsg, hpeer, hsends, hcommunicator]
  · rw [hstops, hcomp]; exact h.stops k i

/-- What is not of a kind is not counted among that kind. -/
theorem not_counted {q kind : Packet → Bool} (hq : ∀ m, q m = true → kind m = true) {m : Packet}
    (hm : kind m = false) : q m = false := by
  rw [Bool.eq_false_iff]
  intro hqm
  rw [hq m hqm] at hm
  cases hm

theorem countP_deliver_other {m : Packet} {ms : List Packet} (hm : m ∈ s.flight)
    (ht : t.flight = s.flight.erase m ++ ms) {q : Packet → Bool} (hq : q m = false)
    (hms : ∀ m' ∈ ms, q m' = false) : t.flight.countP q = s.flight.countP q := by
  have hcount := countP_deliver hm ht q
  have hnone : ms.countP q = 0 := by
    rw [List.countP_eq_zero]
    intro m' hm'
    rw [hms m' hm']
    exact Bool.false_ne_true
  rw [hnone, hq] at hcount
  simpa using hcount

theorem not_isReplica_packets {m : Packet} {o : BleOut} (hm : m ∈ BleOut.packets k o) :
    m.isReplica = false ∧ Expected D m := by
  cases o with
  | peerStop peer pid =>
    rw [List.mem_singleton.mp hm]
    exact ⟨rfl, trivial⟩
  | _ => cases hm

/-- A leader election is all that changes. -/
theorem afterBle_others (s : Shutdown P S) (r : BallotLeaderComp × List BleOut) (k' j : ℕ) :
    ((s.afterBle k i r).comps k' j).replicaHandshake = (s.comps k' j).replicaHandshake ∧
      ((s.afterBle k i r).comps k' j).communicator.peers = (s.comps k' j).communicator.peers ∧
      ((s.afterBle k i r).comps k' j).replica = (s.comps k' j).replica := by
  unfold afterBle send
  rw [setComps_comps]
  split_ifs with hkj
  · rw [hkj.1, hkj.2]
    exact ⟨rfl, rfl, rfl⟩
  · exact ⟨rfl, rfl, rfl⟩

/-- A leader election has handled a packet. -/
theorem inv_ble {m : Packet} {r : BallotLeaderComp × List BleOut} (h : Inv D s) (hm : m ∈ s.flight)
    (hble : m.isReplica = false) (hpeers : r.1.peers = (s.comps k i).ble.peers)
    (hnew : BleInv D ((s.without m).afterBle k i r)) : Inv D ((s.without m).afterBle k i r) := by
  have hothers := afterBle_others (k := k) (i := i) (s.without m) r
  refine ⟨hnew, replicaInv_frame h.replica (fun k' j => (hothers k' j).1)
    (fun k' j => (hothers k' j).2.1) (fun k' j => congrArg PaxosReplica.pid (hothers k' j).2.2)
    (fun _ => rfl) fun q hq => ?_, h.pid, fun m' hm' => ?_, fun j hj hfin => ?_⟩
  · refine countP_deliver_other hm rfl (not_counted hq hble) fun m' hm' => ?_
    obtain ⟨o, -, ho⟩ := List.mem_flatMap.mp hm'
    exact not_counted hq (not_isReplica_packets (D := D) ho).1
  · rcases List.mem_append.mp hm' with hm' | hm'
    · exact h.packets m' (List.mem_of_mem_erase hm')
    · obtain ⟨o, -, ho⟩ := List.mem_flatMap.mp hm'
      exact (not_isReplica_packets ho).2
  · obtain ⟨hb, hr⟩ := h.unfinished j hj hfin
    rw [(hothers 2 j).2.2]
    refine ⟨?_, hr⟩
    unfold afterBle send
    rw [setComps_comps]
    split_ifs with hkj
    · rw [← hkj.1, ← hkj.2] at hpeers
      exact hpeers.trans hb
    · exact hb

/-- A replica is all that changes. -/
theorem afterReplica_others (s : Shutdown P S) (r : PaxosReplica.Result P S M) (k' j : ℕ) :
    ((s.afterReplica k i r).comps k' j).bleHandshake = (s.comps k' j).bleHandshake := by
  rw [afterReplica_comps]
  split_ifs with hkj
  · rw [hkj.1, hkj.2]
    rfl
  · rfl

/-- A replica or a communicator has handled a packet: the leader elections are as they were. -/
theorem bleInv_other {m : Packet} {ms : List Packet} (h : BleInv D s) (hm : m ∈ s.flight)
    (ht : t.flight = s.flight.erase m ++ ms) (hmble : m.isBle = false)
    (hms : ∀ m' ∈ ms, m'.isBle = false) (hcomp : t.comp = s.comp)
    (hdata : ∀ k i, (t.comps k i).bleHandshake = (s.comps k i).bleHandshake) : BleInv D t := by
  refine bleInv_frame h hdata (fun j => by rw [hcomp]) fun q hq => ?_
  exact countP_deliver_other hm ht (not_counted hq hmble) fun m' hm' => not_counted hq (hms m' hm')

/-- A replica has handled a packet. -/
theorem inv_replica {m : Packet} {r : PaxosReplica.Result P S M} (h : Inv D s) (hm : m ∈ s.flight)
    (hmble : m.isBle = false) (hpeers : r.1.peers = (s.comps k i).replica.peers)
    (hms : ∀ m' ∈ r.2.flatMap (ReplicaOut.packets k i), m'.isBle = false ∧ Expected D m')
    (hnew : ReplicaInv D ((s.without m).afterReplica k i r)) :
    Inv D ((s.without m).afterReplica k i r) := by
  have hothers := afterReplica_others (k := k) (i := i) (s.without m) r
  refine ⟨bleInv_other h.ble hm rfl hmble (fun m' hm' => (hms m' hm').1) rfl hothers, hnew, h.pid,
    fun m' hm' => ?_, fun j hj hfin => ?_⟩
  · rcases List.mem_append.mp hm' with hm' | hm'
    · exact h.packets m' (List.mem_of_mem_erase hm')
    · exact (hms m' hm').2
  · obtain ⟨hb, hr⟩ := h.unfinished j hj hfin
    refine ⟨(congrArg Handshake.peers (hothers 2 j)).trans hb, ?_⟩
    rw [afterReplica_comps]
    split_ifs with hkj
    · rw [← hkj.1, ← hkj.2] at hpeers
      exact hpeers.trans hr
    · exact hr

/-- A communicator has handled a packet. -/
theorem inv_communicator {m : Packet} {r : Communicator × List (CommunicatorOut M)} (h : Inv D s)
    (hm : m ∈ s.flight) (hmble : m.isBle = false) (hpeers : r.1.peers = (s.comps k i).communicator.peers)
    (hnew : ReplicaInv D ((s.without m).afterCommunicator k i r)) :
    Inv D ((s.without m).afterCommunicator k i r) := by
  have halike := afterCommunicator_alike (s := s.without m) hpeers
  have hms : ∀ m' ∈ r.2.flatMap (CommunicatorOut.packets k i), m'.isBle = false ∧ Expected D m' := by
    intro m' hm'
    obtain ⟨o, -, ho⟩ := List.mem_flatMap.mp hm'
    cases o with
    | stopPeer peer pid => rw [List.mem_singleton.mp ho]; exact ⟨rfl, trivial⟩
    | indicateStop pid => rw [List.mem_singleton.mp ho]; exact ⟨rfl, trivial⟩
    | _ => cases ho
  refine ⟨bleInv_other h.ble hm rfl hmble (fun m' hm' => (hms m' hm').1) rfl fun k' j => (halike k' j).ble,
    hnew, h.pid, fun m' hm' => ?_, fun j hj hfin => ?_⟩
  · rcases List.mem_append.mp hm' with hm' | hm'
    · exact h.packets m' (List.mem_of_mem_erase hm')
    · exact (hms m' hm').2
  · obtain ⟨hb, hr⟩ := h.unfinished j hj hfin
    exact ⟨(congrArg Handshake.peers (halike 2 j).ble).trans hb,
      (congrArg Handshake.peers (halike 2 j).replica).trans hr⟩

/-! ### The supervisor -/

/-- The flights differ in `ReconfigInit`s only. -/
def SameStops (s t : Shutdown P S) : Prop :=
  ∀ q : Packet → Bool, (∀ j r, q (.reconfigInit j r) = false) → t.flight.countP q = s.flight.countP q

theorem sameStops_send {ms : List Packet} (ht : t.flight = s.flight ++ ms)
    (hms : ∀ m ∈ ms, ∃ j r, m = .reconfigInit j r) : SameStops s t := by
  intro q hq
  have hnone : ms.countP q = 0 := by
    rw [List.countP_eq_zero]
    intro m hm
    obtain ⟨j, r, rfl⟩ := hms m hm
    rw [hq]
    exact Bool.false_ne_true
  rw [ht, List.countP_append, hnone, Nat.add_zero]

theorem sameStops_deliver {j : ℕ} {r : ReconfigInit} {ms : List Packet}
    (hm : .reconfigInit j r ∈ s.flight) (ht : t.flight = s.flight.erase (.reconfigInit j r) ++ ms)
    (hms : ∀ m ∈ ms, ∃ j r, m = .reconfigInit j r) : SameStops s t := by
  intro q hq
  refine countP_deliver_other hm ht (hq j r) fun m hm => ?_
  obtain ⟨j', r', rfl⟩ := hms m hm
  exact hq j' r'

theorem SameStops.ble (h : SameStops s t) (q : Packet → Bool)
    (hq : ∀ m, q m = true → m.isBle = true) : t.flight.countP q = s.flight.countP q :=
  h q fun _ _ => not_counted hq rfl

theorem SameStops.replica (h : SameStops s t) (q : Packet → Bool)
    (hq : ∀ m, q m = true → m.isReplica = true) : t.flight.countP q = s.flight.countP q :=
  h q fun _ _ => not_counted hq rfl

/-- Nobody is stopped, and no peers are set. -/
theorem inv_steady (h : Inv D s) (hcomps : ∀ k j, Alike (s.comps k j) (t.comps k j))
    (hpid : ∀ j, (t.comp j).pid = (s.comp j).pid)
    (hstopped : ∀ j, (t.comp j).stopped = (s.comp j).stopped)
    (hfinished : ∀ j ∈ s.finished, j ∈ t.finished) (hflight : SameStops s t)
    (hpackets : ∀ m ∈ t.flight, Expected D m) : Inv D t := by
  refine ⟨?_, ?_, fun j => (hpid j).trans (h.pid j), hpackets, fun j hj hfin => ?_⟩
  · exact bleInv_frame h.ble (fun k j => (hcomps k j).ble) hstopped hflight.ble
  · exact replicaInv_frame h.replica (fun k j => (hcomps k j).replica)
      (fun k j => (hcomps k j).communicator) (fun k j => (hcomps k j).pid) hstopped hflight.replica
  · obtain ⟨hb, hr⟩ := h.unfinished j hj fun hmem => hfin (hfinished j hmem)
    exact ⟨(congrArg Handshake.peers (hcomps 2 j).ble).trans hb,
      (congrArg Handshake.peers (hcomps 2 j).replica).trans hr⟩

/-- The components of the second configuration of a node that have stopped have heard from all nodes
that are to be their peers. -/
def HeardFrom (s : Shutdown P S) (i : ℕ) (peers : List ℕ) : Prop :=
  ((s.comps 2 i).ble.stopped = true → ∀ p ∈ peers, p ∈ (s.comps 2 i).ble.stoppedPeers) ∧
    ((s.comps 2 i).replica.stopped = true → ∀ p ∈ peers, p ∈ (s.comps 2 i).replica.stoppedPeers)

instance (s : Shutdown P S) (i : ℕ) (peers : List ℕ) : Decidable (s.HeardFrom i peers) :=
  inferInstanceAs (Decidable (_ ∧ _))

/-- **The components of the second configuration of a node learn their peers.** -/
theorem inv_learn (h : Inv D s) (hi : i ∈ D.conf 2)
    (hlearned : Learned (D.reconfig.getPeersOf i) (s.comps 2 i) (t.comps 2 i))
    (hothers : ∀ k j, ¬ (k = 2 ∧ j = i) → Alike (s.comps k j) (t.comps k j))
    (hpid : ∀ j, (t.comp j).pid = (s.comp j).pid)
    (hstopped : ∀ j, (t.comp j).stopped = (s.comp j).stopped)
    (hfinished : ∀ j ∈ s.finished, j ∈ t.finished) (hself : i ∈ D.initial → i ∈ t.finished)
    (hflight : SameStops s t) (hpackets : ∀ m ∈ t.flight, Expected D m)
    (hheard : s.HeardFrom i (D.reconfig.getPeersOf i)) : Inv D t := by
  refine ⟨?_, ?_, fun j => (hpid j).trans (h.pid j), hpackets, fun j hj hfin => ?_⟩
  · refine bleInv_learn (k := 2) (i := i) h.ble hi (fun k j => ?_) (fun k j p => ?_) (fun k j => ?_)
      hstopped hheard.1
    · split_ifs with hkj
      · rw [hkj.1, hkj.2]; exact hlearned.ble
      · exact (hothers k j hkj).ble
    · exact hflight _ fun _ _ => rfl
    · exact hflight _ fun _ _ => rfl
  · refine replicaInv_learn (k := 2) (i := i) h.replica hi (fun k j => ?_) (fun k j => ?_) (fun k j => ?_)
      (fun k j p => ?_) (fun k j p => ?_) (fun k j => ?_) (fun k j => ?_) hstopped hheard.2
    · split_ifs with hkj
      · rw [hkj.1, hkj.2]; exact hlearned.replica
      · exact (hothers k j hkj).replica
    · split_ifs with hkj
      · rw [hkj.1, hkj.2, hlearned.communicator]; rfl
      · rw [(hothers k j hkj).communicator]
    · by_cases hkj : k = 2 ∧ j = i
      · rw [hkj.1, hkj.2]; exact hlearned.pid
      · exact (hothers k j hkj).pid
    · exact hflight _ fun _ _ => rfl
    · exact hflight _ fun _ _ => rfl
    · exact hflight _ fun _ _ => rfl
    · exact hflight _ fun _ _ => rfl
  · have hne : ¬ (2 = 2 ∧ j = i) := fun hc => hfin (hc.2 ▸ hself (hc.2 ▸ hj))
    obtain ⟨hb, hr⟩ := h.unfinished j hj fun hmem => hfin (hfinished j hmem)
    exact ⟨(congrArg Handshake.peers (hothers 2 j hne).ble).trans hb,
      (congrArg Handshake.peers (hothers 2 j hne).replica).trans hr⟩

/-- The `Stop` asks of a node with `n` configurations from `f` on. -/
def stopPackets (f n i pid : ℕ) : List Packet :=
  (List.range n).map (fun x => .bleStop (f + x) i pid) ++
    ((List.range (n - 1)).map (fun x => .replicaStop (f + x) i false) ++ [.replicaStop (f + (n - 1)) i true])

theorem mem_stopPackets {f n pid : ℕ} {m : Packet} (hm : m ∈ stopPackets f n i pid) :
    (∃ k, m = .bleStop k i pid) ∨ ∃ k b, m = .replicaStop k i b := by
  rcases List.mem_append.mp hm with hm | hm
  · obtain ⟨x, -, rfl⟩ := List.mem_map.mp hm
    exact Or.inl ⟨_, rfl⟩
  rcases List.mem_append.mp hm with hm | hm
  · obtain ⟨x, -, rfl⟩ := List.mem_map.mp hm
    exact Or.inr ⟨_, _, rfl⟩
  · exact Or.inr ⟨_, _, List.mem_singleton.mp hm⟩

theorem countP_range_le (n f k : ℕ) : (List.range n).countP (fun x => decide (k = f + x)) ≤ 1 := by
  have hle : (List.range n).countP (fun x => decide (k = f + x)) ≤ (List.range n).count (k - f) := by
    refine List.countP_mono_left fun x _ hx => ?_
    rw [decide_eq_true_eq] at hx
    rw [beq_iff_eq]
    omega
  exact hle.trans (List.nodup_iff_count_le_one.mp List.nodup_range _)

/-- Each leader election and each replica of the node is asked once. -/
theorem countP_stopPackets {n : ℕ} (hn : 0 < n) (f i pid k j : ℕ) :
    (stopPackets f n i pid).count (.bleStop k j j) ≤ (if j = i then 1 else 0) ∧
      (stopPackets f n i pid).countP (isReplicaStop k j) ≤ if j = i then 1 else 0 := by
  by_cases hj : j = i
  · subst hj
    have hrange := countP_range_le n f k
    rw [if_pos rfl]
    obtain ⟨n, rfl⟩ : ∃ n', n = n' + 1 := ⟨n - 1, by omega⟩
    unfold stopPackets
    constructor
    · have hreplicas : ((List.range (n + 1 - 1)).map (fun x => Packet.replicaStop (f + x) j false) ++
          [Packet.replicaStop (f + (n + 1 - 1)) j true]).count (Packet.bleStop k j j) = 0 := by
        rw [List.count_eq_zero]
        simp
      rw [List.count_append, hreplicas, Nat.add_zero]
      refine le_trans ?_ hrange
      unfold List.count
      rw [List.countP_map]
      refine List.countP_mono_left fun x _ hx => ?_
      simp only [Function.comp_apply, beq_iff_eq, Packet.bleStop.injEq] at hx
      rw [decide_eq_true_eq]
      exact hx.1.symm
    · have hbles : ((List.range (n + 1)).map fun x => Packet.bleStop (f + x) j pid).countP
          (isReplicaStop k j) = 0 := by
        rw [List.countP_eq_zero]
        simp [isReplicaStop]
      rw [List.countP_append, hbles, Nat.zero_add, List.countP_append, List.countP_map]
      rw [List.range_succ, List.countP_append] at hrange
      simpa [isReplicaStop, Function.comp_def] using hrange
  · rw [if_neg hj, Nat.le_zero, Nat.le_zero, List.countP_eq_zero, List.count_eq_zero]
    constructor
    · intro hm
      rcases mem_stopPackets hm with ⟨k', heq⟩ | ⟨k', b, heq⟩
      · cases heq; exact hj rfl
      · cases heq
    · intro m hm
      rcases mem_stopPackets hm with ⟨k', rfl⟩ | ⟨k', b, rfl⟩
      · exact Bool.false_ne_true
      · simp [isReplicaStop, hj]

/-- What `stop_components` sends. -/
theorem packets_stopComponents {c : PaxosComp S} {r : After S} (h : c.stopComponents = some r) :
    (∀ o ∈ r.2, ¬ SetsPeers o) ∧
      ∃ f n, 0 < n ∧ r.2.flatMap (r.1.packets i) = stopPackets f n i r.1.pid := by
  obtain ⟨-, -, start, hcalm, hout, hpos⟩ := stopComponents_eq h
  refine ⟨fun o ho => ?_, r.1.firstConfigId, r.1.replicas, hpos, ?_⟩
  · rw [hout] at ho
    rcases List.mem_cons.mp ho with rfl | ho
    · exact id
    rcases List.mem_append.mp ho with ho | ho
    · obtain ⟨x, -, rfl⟩ := List.mem_map.mp ho
      exact id
    rcases List.mem_cons.mp ho with rfl | ho
    · exact id
    · exact not_setsPeers_of_calm (hcalm (fun _ _ => True) o ho)
  · have hstart : start.flatMap (r.1.packets i) = [] := by
      rw [List.eq_nil_iff_forall_not_mem]
      intro m hm
      obtain ⟨j, r', -, hfalse⟩ := packets_calm (hcalm fun _ _ => False) hm
      exact hfalse
    have hreplicas : ((List.range (r.1.replicas - 1)).map fun x => CompOut.replica x (.stop false)).flatMap
        (r.1.packets i) = (List.range (r.1.replicas - 1)).map fun x =>
          .replicaStop (r.1.firstConfigId + x) i false := by
      rw [List.flatMap_map]
      exact List.flatMap_pure_eq_map _ _
    rw [hout, List.flatMap_cons, List.flatMap_append, List.flatMap_cons, hreplicas, hstart]
    rfl

/-- What is not a `Stop` ask is on the way as before. -/
theorem countP_clientStop {f n : ℕ} (hflight : t.flight = s.flight ++ stopPackets f n i i)
    (q : Packet → Bool) (hble : ∀ k, q (.bleStop k i i) = false)
    (hreplica : ∀ k b, q (.replicaStop k i b) = false) : t.flight.countP q = s.flight.countP q := by
  have hnone : (stopPackets f n i i).countP q = 0 := by
    rw [List.countP_eq_zero]
    intro m hm
    rcases mem_stopPackets hm with ⟨k, rfl⟩ | ⟨k, b, rfl⟩
    · rw [hble]; exact Bool.false_ne_true
    · rw [hreplica]; exact Bool.false_ne_true
  rw [hflight, List.countP_append, hnone, Nat.add_zero]

/-- A node that was not stopped has asked no component before, and now asks each once. -/
theorem asked_le (hrun : (s.comp i).stopped = false)
    (hstopped : ∀ j, (t.comp j).stopped = if j = i then true else (s.comp j).stopped)
    {j old new b : ℕ} (hold : old + b ≤ (s.comp j).stopped.toNat)
    (hnew : new ≤ if j = i then 1 else 0) : old + new + b ≤ (t.comp j).stopped.toNat := by
  rw [hstopped]
  split_ifs at hnew ⊢ with hj
  · rw [hj, hrun, Bool.toNat_false] at hold
    rw [Bool.toNat_true]
    omega
  · omega

/-- **The client stops a node.** -/
theorem inv_clientStop [Paxos P S M] {r : After S} (h : Inv D s) (hrun : (s.comp i).stopped = false)
    (hr : (s.comp i).stopComponents = some r) (ht : s.afterComp i r = some t) : Inv D t := by
  obtain ⟨hpid, hstop, -⟩ := stopComponents_eq hr
  obtain ⟨hsets, f, n, hn, hpackets⟩ := packets_stopComponents (i := i) hr
  obtain ⟨hcomp, hflight, hfinished, hcomps⟩ := afterComp_framed hsets ht
  rw [hpackets, hpid, h.pid i] at hflight
  have hflight' : t.flight = s.flight ++ stopPackets f n i i := hflight
  have hother := countP_clientStop hflight'
  have hstopped : ∀ j, (t.comp j).stopped = if j = i then true else (s.comp j).stopped := by
    intro j
    rw [hcomp]
    split_ifs with hj
    · rw [hj]; simpa [send] using hstop
    · simp [send, Function.update_of_ne hj]
  refine ⟨bleInv_congr h.ble (fun k j => (hcomps k j).ble) (fun k j p => ?_) fun k j => ?_,
    replicaInv_congr h.replica (fun k j => (hcomps k j).replica) (fun k j => (hcomps k j).communicator)
      (fun k j => (hcomps k j).pid) (fun k j p => ?_) (fun k j => ?_) fun k j => ?_,
    fun j => ?_, fun m hm => ?_, fun j hj hfin => ?_⟩
  · exact hother _ (fun _ => rfl) fun _ _ => rfl
  · rw [hflight', List.count_append]
    exact asked_le hrun hstopped (h.ble.stops k j) (countP_stopPackets hn f i i k j).1
  · have hmsg : t.flight.count (.stopMsg k j p) = s.flight.count (.stopMsg k j p) :=
      hother _ (fun _ => rfl) fun _ _ => rfl
    have hpeer : t.flight.count (.commPeer k j p) = s.flight.count (.commPeer k j p) :=
      hother _ (fun _ => rfl) fun _ _ => rfl
    have hsend : t.sendStops k p = s.sendStops k p := hother _ (fun _ => rfl) fun _ _ => rfl
    have hsame : (t.comps k p).communicator.peers = (s.comps k p).communicator.peers :=
      (hcomps k p).communicator
    rw [replicaGroup_flight, replicaGroup_flight, hmsg, hpeer, hsend, hsame]
  · exact (hother _ (fun _ => rfl) fun _ _ => rfl).le
  · unfold replicaStops
    rw [hflight', List.countP_append]
    exact asked_le hrun hstopped (h.replica.stops k j) (countP_stopPackets hn f i i k j).2
  · rw [hcomp]
    by_cases hj : j = i
    · rw [hj]; simpa [send] using hpid.trans (h.pid i)
    · simpa [send, Function.update_of_ne hj] using h.pid j
  · rw [hflight'] at hm
    rcases List.mem_append.mp hm with hm | hm
    · exact h.packets m hm
    · rcases mem_stopPackets hm with ⟨k, rfl⟩ | ⟨k, b, rfl⟩
      · exact rfl
      · trivial
  · rw [hfinished] at hfin
    obtain ⟨hb, hr⟩ := h.unfinished j hj hfin
    exact ⟨(congrArg Handshake.peers (hcomps 2 j).ble).trans hb,
      (congrArg Handshake.peers (hcomps 2 j).replica).trans hr⟩

end Shutdown

end OmniPaxosBench.OmniPaxos
