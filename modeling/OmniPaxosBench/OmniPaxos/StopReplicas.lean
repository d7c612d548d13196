import OmniPaxosBench.OmniPaxos.StopHandshake

/-! # The stop handshake: replicas

What one packet does to the replicas of a configuration. A stop takes three hops: from the replica to its
communicator, from there to the communicators of the peers, and from these to their replicas. The first
is `StopGroup.stop`, the second changes nothing for the group, nor does the first half of the third, and
the last is `StopGroup.receive`. -/

namespace OmniPaxosBench.OmniPaxos

open LeaderElection OmniPaxosBench.Lib PaxosComp ConfigComps

namespace Shutdown

variable {P S M : Type} {D : Deployment P} {s t : Shutdown P S} {k i p : ℕ}

/-- The replicas and communicators are as before; the `Stop` asks may be other ones. -/
theorem replicaInv_congr (h : ReplicaInv D s)
    (hdata : ∀ k i, (t.comps k i).replicaHandshake = (s.comps k i).replicaHandshake)
    (hcommunicator : ∀ k i, (t.comps k i).communicator.peers = (s.comps k i).communicator.peers)
    (hpid : ∀ k i, (t.comps k i).replica.pid = (s.comps k i).replica.pid)
    (hflight : ∀ k i p, (t.replicaGroup k).flight i p = (s.replicaGroup k).flight i p)
    (hsends : ∀ k i, t.sendStops k i ≤ s.sendStops k i)
    (hstops : ∀ k i, t.replicaStops k i + (s.comps k i).replica.stopped.toNat ≤
      (t.comp i).stopped.toNat) : ReplicaInv D t := by
  have hstopped : ∀ k i, (t.comps k i).replica.stopped = (s.comps k i).replica.stopped :=
    fun k i => congrArg Handshake.stopped (hdata k i)
  have hpeers : ∀ k i, (t.comps k i).replica.peers = (s.comps k i).replica.peers :=
    fun k i => congrArg Handshake.peers (hdata k i)
  refine ⟨fun k => (h.group k).congr (hdata k) (hflight k), fun k i => ?_, fun k i => ?_, fun k i => ?_,
    fun k i => ?_⟩
  · rw [hstopped]; exact hstops k i
  · rw [hstopped]; exact (hsends k i).trans (h.sendStops k i)
  · rw [hcommunicator, hpeers]; exact h.communicator k i
  · rw [hpid]; exact h.pid k i

theorem afterReplica_comps (s : Shutdown P S) (r : PaxosReplica.Result P S M) (k' j : ℕ) :
    (s.afterReplica k i r).comps k' j =
      if k' = k ∧ j = i then (s.comps k i).afterReplica r else s.comps k' j := by
  unfold afterReplica send
  exact setComps_comps _ _ _ _ _ _

/-- The replica of node `i` has handled something: its handshake is `h'`, and but for it only the flight
has changed. -/
structure Turn (k i : ℕ) (h' : Handshake ℕ) (s t : Shutdown P S) : Prop where
  member : ∀ k' j, (t.replicaGroup k').member j =
    if k' = k ∧ j = i then h' else (s.replicaGroup k').member j
  communicator : ∀ k' j, (t.comps k' j).communicator.peers = (s.comps k' j).communicator.peers
  pid : ∀ k' j, (t.comps k' j).replica.pid = (s.comps k' j).replica.pid
  comp : t.comp = s.comp

theorem afterReplica_turn {m : Packet} {r : PaxosReplica.Result P S M} {h' : Handshake ℕ}
    (hshake : ((s.comps k i).afterReplica r).replicaHandshake = h')
    (hpid : r.1.pid = (s.comps k i).replica.pid) :
    Turn k i h' s ((s.without m).afterReplica k i r) := by
  have hcomps : ∀ k' j, ((s.without m).afterReplica k i r).comps k' j =
      if k' = k ∧ j = i then (s.comps k i).afterReplica r else s.comps k' j :=
    fun k' j => afterReplica_comps _ _ k' j
  refine ⟨fun k' j => ?_, fun k' j => ?_, fun k' j => ?_, rfl⟩
  · unfold replicaGroup
    dsimp only
    rw [hcomps, ← hshake]
    split_ifs
    · rfl
    · rfl
  · rw [hcomps]
    split_ifs with hkj
    · rw [hkj.1, hkj.2]; rfl
    · rfl
  · rw [hcomps]
    split_ifs with hkj
    · rw [hkj.1, hkj.2]; exact hpid
    · rfl

/-- What is left to show after a turn that keeps the peers. -/
theorem Turn.inv {h' : Handshake ℕ} (hturn : Turn k i h' s t) (h : ReplicaInv D s)
    (hpeers : h'.peers = (s.comps k i).replica.peers)
    (hgroup : ∀ k, Consistent (D.conf k) (t.replicaGroup k))
    (hstops : ∀ k' j, t.replicaStops k' j + (t.comps k' j).replica.stopped.toNat ≤
      (s.comp j).stopped.toNat)
    (hsends : ∀ k' j, t.sendStops k' j ≤ (t.comps k' j).replica.stopped.toNat) : ReplicaInv D t := by
  refine ⟨hgroup, fun k' j => ?_, hsends, fun k' j => ?_, fun k' j => ?_⟩
  · rw [hturn.comp]; exact hstops k' j
  · have hsame : (t.comps k' j).replica.peers = (s.comps k' j).replica.peers :=
      Consistent.field_eq Handshake.peers hturn.member hpeers k' j
    rw [hturn.communicator, hsame]
    exact h.communicator k' j
  · rw [hturn.pid]; exact h.pid k' j

theorem replica_running {ackClient : Bool} (h : ReplicaInv D s)
    (hm : .replicaStop k i ackClient ∈ s.flight) : (s.comps k i).replica.stopped = false := by
  have hpos : 0 < s.replicaStops k i := List.countP_pos_iff.mpr ⟨_, hm, by simp [isReplicaStop]⟩
  have hone := Bool.toNat_le (s.comp i).stopped
  have hstops := h.stops k i
  exact toNat_of_lt (by omega)

/-- A replica has handled its `Stop`: the stop is on the way to all of its peers. -/
theorem flight_replicaStop {ackClient : Bool} (h : ReplicaInv D s)
    (hm : .replicaStop k i ackClient ∈ s.flight)
    (hflight : t.flight = s.flight.erase (.replicaStop k i ackClient) ++ [.sendStop k i i ackClient])
    (hcommunicator : ∀ k' j, (t.comps k' j).communicator.peers = (s.comps k' j).communicator.peers)
    (hsends : ∀ k' j, t.sendStops k' j = s.sendStops k' j + if k' = k ∧ j = i then 1 else 0)
    (k' j p : ℕ) : (t.replicaGroup k').flight j p = (s.replicaGroup k').flight j p +
      if k' = k ∧ p = i ∧ j ∈ (s.comps k i).replica.peers then 1 else 0 := by
  have hmsg := count_deliver hm hflight (.stopMsg k' j p)
  have hpeer := count_deliver hm hflight (.commPeer k' j p)
  simp only [reduceCtorEq, if_false, Nat.add_zero, List.count_singleton, beq_iff_eq] at hmsg hpeer
  rw [replicaGroup_flight, replicaGroup_flight, hcommunicator, hsends, hmsg, hpeer]
  by_cases hkp : k' = k ∧ p = i
  · rw [if_pos hkp, hkp.1, hkp.2, h.communicator k i]
    simp only [true_and]
    split_ifs
    · omega
    · omega
  · have hnot : ¬ (k' = k ∧ p = i ∧ j ∈ (s.comps k i).replica.peers) := fun hc => hkp ⟨hc.1, hc.2.1⟩
    rw [if_neg hkp, if_neg hnot]
    rfl

/-- **A replica handles its `Stop`**: the stop is with the communicator. -/
theorem replicaInv_stop {ackClient : Bool} (h : ReplicaInv D s)
    (hm : .replicaStop k i ackClient ∈ s.flight)
    (hsub : (s.comps k i).replica.stoppedPeers ⊆ (s.comps k i).replica.peers) :
    ReplicaInv D ((s.without (.replicaStop k i ackClient)).afterReplica k i
      ((s.comps k i).replica.handleStop ackClient : PaxosReplica.Result P S M)) := by
  obtain ⟨hshake, hpackets⟩ := replicaHandshake_stop (S := S) (M := M) (s.comps k i) k i ackClient
  have hrun := replica_running h hm
  have hturn := afterReplica_turn (m := .replicaStop k i ackClient) hshake (handleStop_pid _ _)
  set t := (s.without (.replicaStop k i ackClient)).afterReplica k i
    ((s.comps k i).replica.handleStop ackClient : PaxosReplica.Result P S M) with ht
  have hflight : t.flight = s.flight.erase (.replicaStop k i ackClient) ++
      [.sendStop k i i ackClient] := by
    rw [h.pid k i] at hpackets
    rw [← hpackets]
    rfl
  have hsends : ∀ k' j, t.sendStops k' j = s.sendStops k' j + if k' = k ∧ j = i then 1 else 0 := by
    intro k' j
    have hcount := countP_deliver hm hflight (isSendStop k' j)
    simpa [sendStops, isSendStop] using hcount
  have hasks : ∀ k' j, t.replicaStops k' j + (if k' = k ∧ j = i then 1 else 0) =
      s.replicaStops k' j := by
    intro k' j
    have hcount := countP_deliver hm hflight (isReplicaStop k' j)
    simpa [replicaStops, isReplicaStop] using hcount
  have hstopped : ∀ k' j, (t.comps k' j).replica.stopped = if k' = k ∧ j = i then true
      else (s.comps k' j).replica.stopped := by
    intro k' j
    have hs := congrArg Handshake.stopped (hturn.member k' j)
    split_ifs at hs ⊢
    · rw [Handshake.stop_stopped] at hs; exact hs
    · exact hs
  refine hturn.inv h Handshake.stop_peers ?_ (fun k' j => ?_) fun k' j => ?_
  · exact Consistent.family_stop h.group (conf_nodup D k) hturn.member
      (flight_replicaStop h hm hflight hturn.communicator hsends) hrun hsub
  · have hthis := h.stops k' j
    have hask := hasks k' j
    rw [hstopped]
    split_ifs at hask ⊢ with hkj
    · simp only [Bool.toNat_true]
      omega
    · omega
  · have hthis := h.sendStops k' j
    rw [hstopped, hsends]
    split_ifs with hkj
    · rw [hkj.1, hkj.2, hrun, Bool.toNat_false] at hthis
      rw [hkj.1, hkj.2]
      simp only [Bool.toNat_true]
      omega
    · exact hthis

/-- A communicator keeps its peers, and nothing else of the components changes. -/
theorem afterCommunicator_alike {r : Communicator × List (CommunicatorOut M)}
    (hpeers : r.1.peers = (s.comps k i).communicator.peers) (k' j : ℕ) :
    Alike (s.comps k' j) ((s.afterCommunicator k i r).comps k' j) := by
  unfold afterCommunicator send
  rw [setComps_comps]
  split_ifs with hkj
  · rw [hkj.1, hkj.2]
    exact ⟨rfl, rfl, hpeers, rfl⟩
  · exact Alike.refl _

/-- **What is not about stops** keeps the peers and sends no stops. -/
theorem communicator_steady {c : Communicator} {e : CommunicatorEvent M}
    {r : Communicator × List (CommunicatorOut M)} (he : IsRoutineCommunicator e) (h : c.handle e = some r) :
    r.1.peers = c.peers ∧ r.2.flatMap (CommunicatorOut.packets k i) = [] := by
  cases e with
  | request m =>
    cases m with
    | rawMsg m =>
      simp only [Communicator.handle, Communicator.handleRequest] at h
      split_ifs at h
      · cases h; exact ⟨rfl, rfl⟩
      · cases h; exact ⟨rfl, rfl⟩
    | proposalResponse data latestLeader leaderRound => cases h; exact ⟨rfl, rfl⟩
    | reconfigurationResponse latestLeader leaderRound conf => cases h; exact ⟨rfl, rfl⟩
    | sendStop myPid ackClient => exact he.elim
  | receive m =>
    cases h
    dsimp only
    split_ifs
    · exact ⟨rfl, rfl⟩
    · exact ⟨rfl, rfl⟩
  | receiveStop pid => exact he.elim
  | partition e =>
    obtain ⟨part, -, rfl⟩ := Option.map_eq_some_iff.mp h
    exact ⟨rfl, rfl⟩

/-- A packet is delivered to a communicator: only the flight changes. -/
theorem replicaInv_flight (h : ReplicaInv D s) (hcomps : ∀ k i, Alike (s.comps k i) (t.comps k i))
    (hcomp : t.comp = s.comp)
    (hflight : ∀ k i p, (t.replicaGroup k).flight i p = (s.replicaGroup k).flight i p)
    (hsends : ∀ k i, t.sendStops k i ≤ s.sendStops k i)
    (hstops : ∀ k i, t.replicaStops k i = s.replicaStops k i) : ReplicaInv D t := by
  refine replicaInv_congr h (fun k i => (hcomps k i).replica) (fun k i => (hcomps k i).communicator)
    (fun k i => (hcomps k i).pid) hflight hsends fun k i => ?_
  rw [hstops, hcomp]
  exact h.stops k i

theorem packets_sendStop (c : Communicator) (k i pid : ℕ) (ackClient : Bool) :
    (c.handleSendStop pid ackClient).2.flatMap (CommunicatorOut.packets (M := M) k i) =
      c.peers.map fun q => Packet.commPeer k q pid := by
  have hpeers : (c.peers.map fun q => CommunicatorOut.stopPeer q pid).flatMap
      (CommunicatorOut.packets (M := M) k i) = c.peers.map fun q => Packet.commPeer k q pid := by
    rw [List.flatMap_map]
    exact List.flatMap_pure_eq_map _ _
  unfold Communicator.handleSendStop
  rw [List.flatMap_append, hpeers]
  cases ackClient with
  | false => exact List.append_nil _
  | true => exact List.append_nil _

/-- **A communicator sends the stop on to the peers.** -/
theorem replicaInv_sendStop {ackClient : Bool} (h : ReplicaInv D s)
    (hm : .sendStop k i i ackClient ∈ s.flight) :
    ReplicaInv D ((s.without (.sendStop k i i ackClient)).afterCommunicator (M := M) k i
      ((s.comps k i).communicator.handleSendStop i ackClient)) := by
  set t := (s.without (.sendStop k i i ackClient)).afterCommunicator (M := M) k i
    ((s.comps k i).communicator.handleSendStop i ackClient) with ht
  have halike : ∀ k' j, Alike (s.comps k' j) (t.comps k' j) := fun k' j =>
    afterCommunicator_alike (s := s.without (.sendStop k i i ackClient)) rfl k' j
  have hflight : t.flight = s.flight.erase (.sendStop k i i ackClient) ++
      (s.comps k i).communicator.peers.map fun q => .commPeer k q i := by
    rw [← packets_sendStop (M := M) _ k i i ackClient]
    rfl
  have hnodup : (s.comps k i).communicator.peers.Nodup := by
    rw [h.communicator k i]
    exact (h.group k).nodup_peers (conf_nodup D k) i
  have hsends : ∀ k' j, t.sendStops k' j + (if k' = k ∧ j = i then 1 else 0) = s.sendStops k' j := by
    intro k' j
    have hcount := countP_deliver hm hflight (isSendStop k' j)
    have hnone : ((s.comps k i).communicator.peers.map fun q => Packet.commPeer k q i).countP
        (isSendStop k' j) = 0 := by
      rw [List.countP_eq_zero]
      simp [isSendStop]
    rw [hnone] at hcount
    simpa [sendStops, isSendStop] using hcount
  refine replicaInv_flight h halike rfl (fun k' j p => ?_) (fun k' j => ?_) fun k' j => ?_
  · have hmsg := count_deliver hm hflight (.stopMsg k' j p)
    have hpeer := count_deliver hm hflight (.commPeer k' j p)
    have hnone : ((s.comps k i).communicator.peers.map fun q => Packet.commPeer k q i).count
        (.stopMsg k' j p) = 0 := by
      rw [List.count_eq_zero]
      simp
    rw [hnone] at hmsg
    rw [count_peers Packet.commPeer.inj hnodup] at hpeer
    simp only [reduceCtorEq, if_false, Nat.add_zero] at hmsg hpeer
    have hsend := hsends k' p
    rw [replicaGroup_flight, replicaGroup_flight, hmsg, hpeer]
    rw [(halike k' p).communicator]
    by_cases hkp : k' = k ∧ p = i
    · rw [if_pos hkp] at hsend
      rw [hkp.1, hkp.2] at hsend ⊢
      simp only [true_and]
      split_ifs
      · omega
      · omega
    · have hnot : ¬ (k' = k ∧ p = i ∧ j ∈ (s.comps k i).communicator.peers) :=
        fun hc => hkp ⟨hc.1, hc.2.1⟩
      rw [if_neg hkp, Nat.add_zero] at hsend
      rw [if_neg hnot, hsend]
      omega
  · have := hsends k' j
    omega
  · have hcount := countP_deliver hm hflight (isReplicaStop k' j)
    have hnone : ((s.comps k i).communicator.peers.map fun q => Packet.commPeer k q i).countP
        (isReplicaStop k' j) = 0 := by
      rw [List.countP_eq_zero]
      simp [isReplicaStop]
    rw [hnone] at hcount
    simpa [replicaStops, isReplicaStop] using hcount

/-- **A communicator passes the stop of a peer to its replica.** -/
theorem replicaInv_commPeer (h : ReplicaInv D s) (hm : .commPeer k i p ∈ s.flight) :
    ReplicaInv D ((s.without (.commPeer k i p)).afterCommunicator (M := M) k i
      ((s.comps k i).communicator.handlePeerStop p)) := by
  set t := (s.without (.commPeer k i p)).afterCommunicator (M := M) k i
    ((s.comps k i).communicator.handlePeerStop p) with ht
  have halike : ∀ k' j, Alike (s.comps k' j) (t.comps k' j) := fun k' j =>
    afterCommunicator_alike (s := s.without (.commPeer k i p)) rfl k' j
  have hflight : t.flight = s.flight.erase (.commPeer k i p) ++ [.stopMsg k i p] := rfl
  have hsends : ∀ k' j, t.sendStops k' j = s.sendStops k' j := by
    intro k' j
    have hcount := countP_deliver hm hflight (isSendStop k' j)
    simpa [sendStops, isSendStop] using hcount
  refine replicaInv_flight h halike rfl (fun k' j q => ?_) (fun k' j => (hsends k' j).le) fun k' j => ?_
  · have hmsg := count_deliver hm hflight (.stopMsg k' j q)
    have hpeer := count_deliver hm hflight (.commPeer k' j q)
    rw [replicaGroup_flight, replicaGroup_flight, (halike k' q).communicator, hsends]
    simp only [reduceCtorEq, if_false, Nat.add_zero, List.count_singleton, beq_iff_eq,
      Packet.stopMsg.injEq, Packet.commPeer.injEq] at hmsg hpeer
    omega
  · have hcount := countP_deliver hm hflight (isReplicaStop k' j)
    simpa [replicaStops, isReplicaStop] using hcount

/-- A replica has taken the stop of a peer. -/
theorem flight_stopMsg (hm : .stopMsg k i p ∈ s.flight)
    (hflight : t.flight = s.flight.erase (.stopMsg k i p) ++ [])
    (hcommunicator : ∀ k' j, (t.comps k' j).communicator.peers = (s.comps k' j).communicator.peers)
    (hsends : ∀ k' j, t.sendStops k' j = s.sendStops k' j) (k' j q : ℕ) :
    (t.replicaGroup k').flight j q + (if k' = k ∧ q = p ∧ j = i then 1 else 0) =
      (s.replicaGroup k').flight j q := by
  have hmsg := count_deliver hm hflight (.stopMsg k' j q)
  have hpeer := count_deliver hm hflight (.commPeer k' j q)
  have hiff : (k = k' ∧ i = j ∧ p = q) ↔ (k' = k ∧ q = p ∧ j = i) :=
    ⟨fun ⟨hk, hj, hq⟩ => ⟨hk.symm, hq.symm, hj.symm⟩, fun ⟨hk, hq, hj⟩ => ⟨hk.symm, hj.symm, hq.symm⟩⟩
  simp only [reduceCtorEq, if_false, Nat.add_zero, List.count_nil, Packet.stopMsg.injEq, hiff]
    at hmsg hpeer
  rw [replicaGroup_flight, replicaGroup_flight, hcommunicator, hsends]
  omega

/-- **A replica is told of the stop of a peer**, and can handle it. -/
theorem replicaInv_peerStop (h : ReplicaInv D s) (hm : .stopMsg k i p ∈ s.flight) :
    ∃ r : PaxosReplica.Result P S M, (s.comps k i).replica.handlePeerStop p = some r ∧
      ReplicaInv D ((s.without (.stopMsg k i p)).afterReplica k i r) := by
  have hcount : 0 < (s.replicaGroup k).flight i p := by
    have : 0 < s.flight.count (.stopMsg k i p) := List.count_pos_iff.mpr hm
    rw [replicaGroup_flight]
    omega
  obtain ⟨h', hstop, hgroup⟩ := (h.group k).receive (conf_nodup D k) hcount
  have hmap := (replicaHandshake_peerStop (S := S) (M := M) (s.comps k i) p).trans hstop
  obtain ⟨r, hr, hshake⟩ := Option.map_eq_some_iff.mp hmap
  refine ⟨r, hr, ?_⟩
  obtain ⟨hnone, hpid, -⟩ := packets_replicaPeerStop (k := k) (i := i) hr
  obtain ⟨hpeers, hstopped⟩ := Handshake.peerStop_same hstop
  have hturn := afterReplica_turn (m := .stopMsg k i p) hshake hpid
  set t := (s.without (.stopMsg k i p)).afterReplica k i r with ht
  have hsame : ∀ k' j, (t.comps k' j).replica.stopped = (s.comps k' j).replica.stopped :=
    Consistent.field_eq Handshake.stopped hturn.member hstopped
  have hflight : t.flight = s.flight.erase (.stopMsg k i p) ++ [] := by
    rw [← hnone]; rfl
  have hsends : ∀ k' j, t.sendStops k' j = s.sendStops k' j := by
    intro k' j
    have hcount := countP_deliver hm hflight (isSendStop k' j)
    simpa [sendStops, isSendStop] using hcount
  refine hturn.inv h hpeers ?_ (fun k' j => ?_) fun k' j => ?_
  · exact Consistent.family_receive h.group hgroup hturn.member
      (flight_stopMsg hm hflight hturn.communicator hsends)
  · have hasks := countP_deliver hm hflight (isReplicaStop k' j)
    have hthis := h.stops k' j
    simp only [isReplicaStop, Bool.false_eq_true, if_false, Nat.add_zero, List.countP_nil] at hasks
    unfold replicaStops at hthis ⊢
    rw [hsame, hasks]
    exact hthis
  · rw [hsends, hsame]
    exact h.sendStops k' j

/-- If the communicator of node `i` sends to all other nodes, then each of these still gets at most one
stop from it, and none before the replica has stopped. -/
theorem once_learn (h : ReplicaInv D s) (j : ℕ) :
    s.flight.count (.stopMsg k j i) + s.flight.count (.commPeer k j i) +
        (if j ∈ (D.conf k).filter (· ≠ i) then s.sendStops k i else 0) +
        ((s.replicaGroup k).member j).stoppedPeers.count i ≤
      if (s.comps k i).replica.stopped = true ∧ j ∈ (D.conf k).filter (· ≠ i) then 1 else 0 := by
  have honce := (h.group k).once j i
  have hsend := h.sendStops k i
  rw [replicaGroup_flight, h.communicator k i] at honce
  rcases (h.group k).peers i with hnone | ⟨-, heq⟩
  · -- nothing was sent, and the communicator has at most one stop to send
    have hnone' : (s.comps k i).replica.peers = [] := hnone
    simp only [hnone, hnone', List.not_mem_nil, and_false, if_false] at honce
    cases hs : (s.comps k i).replica.stopped with
    | false =>
      rw [hs, Bool.toNat_false] at hsend
      simp only [Bool.false_eq_true, false_and, if_false]
      split_ifs
      · omega
      · omega
    | true =>
      rw [hs, Bool.toNat_true] at hsend
      simp only [true_and]
      split_ifs
      · omega
      · omega
  · have heq' : (s.comps k i).replica.peers = (D.conf k).filter (· ≠ i) := heq
    rw [heq'] at honce
    rw [heq] at honce
    exact honce

/-- **A replica and its communicator learn their peers.** A stop that the communicator has still to send
goes to these then. -/
theorem replicaInv_learn (h : ReplicaInv D s) (hi : i ∈ D.conf k)
    (hmember : ∀ k' j, (t.replicaGroup k').member j = if k' = k ∧ j = i then
      { (s.comps k i).replicaHandshake with peers := (D.conf k).filter (· ≠ i) }
      else (s.replicaGroup k').member j)
    (hcommunicator : ∀ k' j, (t.comps k' j).communicator.peers = if k' = k ∧ j = i then
      (D.conf k).filter (· ≠ i) else (s.comps k' j).communicator.peers)
    (hpid : ∀ k' j, (t.comps k' j).replica.pid = (s.comps k' j).replica.pid)
    (hmsg : ∀ k' j p, t.flight.count (.stopMsg k' j p) = s.flight.count (.stopMsg k' j p))
    (hpeer : ∀ k' j p, t.flight.count (.commPeer k' j p) = s.flight.count (.commPeer k' j p))
    (hsends : ∀ k' j, t.sendStops k' j = s.sendStops k' j)
    (hstops : ∀ k' j, t.replicaStops k' j = s.replicaStops k' j)
    (hcomp : ∀ j, (t.comp j).stopped = (s.comp j).stopped)
    (hin : (s.comps k i).replica.stopped = true →
      ∀ p ∈ (D.conf k).filter (· ≠ i), p ∈ (s.comps k i).replica.stoppedPeers) : ReplicaInv D t := by
  have hstopped : ∀ k' j, (t.comps k' j).replica.stopped = (s.comps k' j).replica.stopped :=
    Consistent.field_eq Handshake.stopped hmember rfl
  have hflight : ∀ k' j p, ¬ (k' = k ∧ p = i) →
      (t.replicaGroup k').flight j p = (s.replicaGroup k').flight j p := by
    intro k' j p hkp
    rw [replicaGroup_flight, replicaGroup_flight, hmsg, hpeer, hsends, hcommunicator, if_neg hkp]
  refine ⟨Consistent.family (k := k) (i := i) h.group hmember
      (fun k' hk j p => hflight k' j p fun hc => hk hc.1) ?_, fun k' j => ?_,
    fun k' j => ?_, fun k' j => ?_, fun k' j => ?_⟩
  · refine (h.group k).learn hi rfl hin (fun j p hp => hflight k j p fun hc => hp hc.2) fun j => ?_
    have hnew : (t.comps k i).communicator.peers = (D.conf k).filter (· ≠ i) := by
      rw [hcommunicator]; simp
    rw [replicaGroup_flight, hmsg, hpeer, hsends, hnew]
    exact once_learn h j
  · rw [hstops, hstopped, hcomp]; exact h.stops k' j
  · rw [hsends, hstopped]; exact h.sendStops k' j
  · have hp := congrArg Handshake.peers (hmember k' j)
    rw [hcommunicator]
    split_ifs at hp ⊢ with hkj
    · exact hp.symm
    · exact (h.communicator k' j).trans hp.symm
  · rw [hpid]; exact h.pid k' j

end Shutdown

end OmniPaxosBench.OmniPaxos
