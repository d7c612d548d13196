import OmniPaxosBench.Lib.Handshake
import OmniPaxosBench.OmniPaxos.Shutdown

/-! # The components and the stop handshake

The leader election and the replica that a node has for a configuration each take part in a handshake of
`Lib.Handshake`: `Stop` and the stop of a peer are `Handshake.stop` and `Handshake.peerStop`. All their
other handlers leave the handshake alone and send no stops. -/

namespace OmniPaxosBench.OmniPaxos

open LeaderElection OmniPaxosBench.Lib PaxosComp

/-! ### Leader elections -/

namespace ConfigComps

variable {P S M : Type} (u : ConfigComps P)

/-- The handshake of the leader election. -/
def bleHandshake : Handshake ℕ :=
  ⟨u.ble.peers, u.ble.stopped, u.ble.stoppedPeers, u.ble.stopAsk, u.bleAnswers⟩

/-- The handshake of the replica. -/
def replicaHandshake : Handshake ℕ :=
  ⟨u.replica.peers, u.replica.stopped, u.replica.stoppedPeers, u.replica.stopAsk, u.replicaAnswers⟩

/-- The components agree in all that the stops depend on. -/
structure Alike (u v : ConfigComps P) : Prop where
  ble : v.bleHandshake = u.bleHandshake
  replica : v.replicaHandshake = u.replicaHandshake
  communicator : v.communicator.peers = u.communicator.peers
  pid : v.replica.pid = u.replica.pid

theorem Alike.refl : Alike u u := ⟨rfl, rfl, rfl, rfl⟩

variable {u}

theorem Alike.trans {v w : ConfigComps P} (h : Alike u v) (h' : Alike v w) : Alike u w :=
  ⟨h'.ble.trans h.ble, h'.replica.trans h.replica, h'.communicator.trans h.communicator,
    h'.pid.trans h.pid⟩

theorem stopTimer_same (b : BallotLeaderComp) : b.stopTimer.peers = b.peers ∧
    b.stopTimer.stopped = b.stopped ∧ b.stopTimer.stoppedPeers = b.stoppedPeers ∧
    b.stopTimer.stopAsk = b.stopAsk := by
  unfold BallotLeaderComp.stopTimer
  split
  · exact ⟨rfl, rfl, rfl, rfl⟩
  · exact ⟨rfl, rfl, rfl, rfl⟩

theorem count_peerStops (peers : List ℕ) (pid : ℕ) :
    (peers.map fun peer => BleOut.peerStop peer pid).count .stopReply = 0 := by
  rw [List.count_eq_zero]
  intro hmem
  obtain ⟨peer, -, heq⟩ := List.mem_map.mp hmem
  cases heq

theorem packets_peerStops (k pid : ℕ) (peers : List ℕ) :
    (peers.map fun peer => BleOut.peerStop peer pid).flatMap (BleOut.packets k) =
      peers.map fun peer => .blePeer k peer pid := by
  rw [List.flatMap_map]
  exact List.flatMap_pure_eq_map _ _

/-- The leader election stops. -/
theorem bleHandshake_stop (u : ConfigComps P) (k pid : ℕ) :
    (u.afterBle (u.ble.handleStop pid)).bleHandshake = u.bleHandshake.stop ∧
      (u.ble.handleStop pid).2.flatMap (BleOut.packets k) =
        u.ble.peers.map fun peer => .blePeer k peer pid := by
  obtain ⟨hpeers, -, hheard, hask⟩ := stopTimer_same { u.ble with disconnectedPeers := [] }
  unfold BallotLeaderComp.handleStop Handshake.stop bleHandshake afterBle
  dsimp only
  rw [hpeers, hheard]
  split_ifs with hlen
  · refine ⟨?_, ?_⟩
    · rw [hask, List.count_append, count_peerStops]
      rfl
    · rw [List.flatMap_append, packets_peerStops]
      exact List.append_nil _
  · refine ⟨?_, packets_peerStops k pid _⟩
    rw [count_peerStops]
    rfl

/-- The leader election is told of the stop of a peer. -/
theorem bleHandshake_peerStop (u : ConfigComps P) (pid : ℕ) :
    (u.ble.handlePeerStop pid).map (fun r => (u.afterBle r).bleHandshake) =
      u.bleHandshake.peerStop pid := by
  unfold BallotLeaderComp.handlePeerStop Handshake.peerStop Handshake.hear bleHandshake
  dsimp only
  split_ifs
  · rfl
  · rfl
  · rfl
  · rfl

theorem packets_blePeerStop {k pid : ℕ} {b : BallotLeaderComp} {r : BallotLeaderComp × List BleOut}
    (h : b.handlePeerStop pid = some r) : r.2.flatMap (BleOut.packets k) = [] ∧
      r.1.peers = b.peers := by
  unfold BallotLeaderComp.handlePeerStop at h
  dsimp only at h
  split_ifs at h
  · cases h; exact ⟨rfl, rfl⟩
  · cases h; exact ⟨rfl, rfl⟩

end ConfigComps

/-- What a leader election knows of stops. -/
def stopData (b : BallotLeaderComp) : List ℕ × Bool × List ℕ × Bool :=
  (b.peers, b.stopped, b.stoppedPeers, b.stopAsk)

def IsStopOut : BleOut → Prop
  | .peerStop _ _ | .stopReply => True
  | _ => False

/-- The stops are not touched, and none is sent. -/
structure BleSteady (b : BallotLeaderComp) (r : BallotLeaderComp × List BleOut) : Prop where
  data : stopData r.1 = stopData b
  outs : ∀ o ∈ r.2, ¬ IsStopOut o

theorem newHbRound_steady {b b' : BallotLeaderComp} (h : stopData b' = stopData b) :
    BleSteady b b'.newHbRound := by
  refine ⟨h, fun o ho => ?_⟩
  obtain ⟨peer, -, rfl⟩ := List.mem_map.mp ho
  exact id

theorem checkLeader_steady (b : BallotLeaderComp) : BleSteady b b.checkLeader := by
  unfold BallotLeaderComp.checkLeader
  dsimp only
  split_ifs
  · exact ⟨rfl, fun o ho => nomatch ho⟩
  · refine ⟨rfl, fun o ho => ?_⟩
    rw [List.mem_singleton.mp ho]
    exact id
  · exact ⟨rfl, fun o ho => nomatch ho⟩

theorem hbTimeout_steady {b b' : BallotLeaderComp} (h : stopData b' = stopData b) :
    BleSteady b b'.hbTimeout := by
  unfold BallotLeaderComp.hbTimeout
  split_ifs
  · have hcheck := checkLeader_steady { b' with
      candidate := true, ballots := b'.ballots ++ [(b'.currentBallot, true)] }
    have hround := newHbRound_steady (hcheck.data.trans h)
    refine ⟨hround.data, fun o ho => ?_⟩
    rcases List.mem_append.mp ho with ho | ho
    · exact hcheck.outs o ho
    · exact hround.outs o ho
  · exact newHbRound_steady h

theorem bleHandle_steady {b : BallotLeaderComp} {e : BleEvent} {r : BallotLeaderComp × List BleOut}
    (he : Shutdown.IsRoutineBle e) (h : b.handle e = some r) : BleSteady b r := by
  cases e with
  | timeout id =>
    obtain ⟨⟨_, timers⟩, -, rfl⟩ := Option.map_eq_some_iff.mp h
    exact hbTimeout_steady rfl
  | request sender round =>
    cases h
    unfold BallotLeaderComp.handleRequest
    split_ifs
    · exact ⟨rfl, fun o ho => nomatch ho⟩
    · refine ⟨rfl, fun o ho => ?_⟩
      rw [List.mem_singleton.mp ho]
      exact id
  | reply m =>
    cases h
    refine ⟨?_, fun o ho => nomatch ho⟩
    unfold BallotLeaderComp.handleReply
    split_ifs
    · rfl
    · rfl
    · rfl
    · rfl
  | stop pid => exact he.elim
  | peerStop pid => exact he.elim
  | partition e =>
    obtain ⟨part, -, rfl⟩ := Option.map_eq_some_iff.mp h
    exact ⟨rfl, fun o ho => nomatch ho⟩

theorem BleSteady.packets {b : BallotLeaderComp} {r : BallotLeaderComp × List BleOut}
    (h : BleSteady b r) (k : ℕ) : r.2.flatMap (BleOut.packets k) = [] := by
  rw [List.flatMap_eq_nil_iff]
  intro o ho
  cases o with
  | peerStop peer pid => exact (h.outs _ ho trivial).elim
  | _ => rfl

namespace ConfigComps

variable {P : Type} {u : ConfigComps P}

/-- The leader election does something else. -/
theorem afterBle_alike {r : BallotLeaderComp × List BleOut} (h : BleSteady u.ble r) :
    Alike u (u.afterBle r) := by
  have hdata := h.data
  simp only [stopData, Prod.mk.injEq] at hdata
  obtain ⟨hpeers, hstopped, hheard, hask⟩ := hdata
  have hcount : r.2.count .stopReply = 0 := by
    rw [List.count_eq_zero]
    exact fun hmem => h.outs _ hmem trivial
  refine ⟨?_, rfl, rfl, rfl⟩
  unfold bleHandshake afterBle
  rw [hpeers, hstopped, hheard, hask, hcount]
  rfl

end ConfigComps

/-! ### Replicas -/

namespace ConfigComps

variable {P S M : Type}

/-- The replica stops. -/
theorem replicaHandshake_stop (u : ConfigComps P) (k i : ℕ) (ackClient : Bool) :
    (u.afterReplica (u.replica.handleStop ackClient : PaxosReplica.Result P S M)).replicaHandshake =
      u.replicaHandshake.stop ∧
    (u.replica.handleStop ackClient : PaxosReplica.Result P S M).2.flatMap (ReplicaOut.packets k i) =
      [.sendStop k i u.replica.pid ackClient] := by
  unfold PaxosReplica.handleStop Handshake.stop replicaHandshake afterReplica
  dsimp only
  split_ifs
  · exact ⟨rfl, rfl⟩
  · exact ⟨rfl, rfl⟩

/-- The replica is told of the stop of a peer. -/
theorem replicaHandshake_peerStop (u : ConfigComps P) (pid : ℕ) :
    (u.replica.handlePeerStop pid : Option (PaxosReplica.Result P S M)).map
      (fun r => (u.afterReplica r).replicaHandshake) = u.replicaHandshake.peerStop pid := by
  unfold PaxosReplica.handlePeerStop Handshake.peerStop Handshake.hear replicaHandshake
  dsimp only
  split_ifs
  · rfl
  · rfl
  · rfl
  · rfl

theorem packets_replicaPeerStop {k i pid : ℕ} {p : PaxosReplica P} {r : PaxosReplica.Result P S M}
    (h : p.handlePeerStop pid = some r) : r.2.flatMap (ReplicaOut.packets k i) = [] ∧
      r.1.pid = p.pid ∧ r.1.peers = p.peers := by
  unfold PaxosReplica.handlePeerStop at h
  dsimp only at h
  split_ifs at h
  · cases h; exact ⟨rfl, rfl, rfl⟩
  · cases h; exact ⟨rfl, rfl, rfl⟩

theorem handleStop_pid (p : PaxosReplica P) (ackClient : Bool) :
    (p.handleStop ackClient : PaxosReplica.Result P S M).1.pid = p.pid := by
  unfold PaxosReplica.handleStop
  dsimp only
  split_ifs
  · rfl
  · rfl

end ConfigComps

namespace PaxosReplica

variable {P S M : Type}

/-- What a replica knows of stops. -/
def stopData (p : PaxosReplica P) : ℕ × List ℕ × Bool × List ℕ × Bool :=
  (p.pid, p.peers, p.stopped, p.stoppedPeers, p.stopAsk)

def IsStopOut : ReplicaOut S M → Prop
  | .sendStop _ _ | .stopReply => True
  | _ => False

/-- The stops are not touched, and none is sent. -/
structure Steady (p : PaxosReplica P) (r : Result P S M) : Prop where
  data : stopData r.1 = stopData p
  outs : ∀ o ∈ r.2, ¬ IsStopOut o

variable {p q : PaxosReplica P} {r : Result P S M} {out : List (ReplicaOut S M)}

theorem steady_nil (h : stopData q = stopData p) : Steady p ((q, []) : Result P S M) :=
  ⟨h, fun _ ho => nomatch ho⟩

theorem Steady.cons {o : ReplicaOut S M} (h : Steady p (q, out)) (ho : ¬ IsStopOut o) :
    Steady p (q, o :: out) := by
  refine ⟨h.data, fun o' ho' => ?_⟩
  rcases List.mem_cons.mp ho' with rfl | ho'
  · exact ho
  · exact h.outs o' ho'

/-- One handler after the other. -/
theorem Steady.append (h : Steady p (q, out)) (hr : Steady q r) : Steady p (r.1, out ++ r.2) := by
  refine ⟨hr.data.trans h.data, fun o ho => ?_⟩
  rcases List.mem_append.mp ho with ho | ho
  · exact h.outs o ho
  · exact hr.outs o ho

variable [Paxos P S M]

theorem handleStopsign_steady (p : PaxosReplica P) (ss : StopSign) :
    Steady p (p.handleStopsign ss : Result P S M) :=
  Steady.cons (Steady.cons (steady_nil rfl) id) id

/-- Answering for the entries decided; the entries are taken one after the other. -/
theorem respond_steady (promise : Ballot) (entries : List Entry) (p : PaxosReplica P) :
    Steady p (respond promise p entries : Result P S M) := by
  induction entries generalizing p with
  | nil => exact steady_nil rfl
  | cons entry rest ih =>
    cases entry with
    | normal data => exact Steady.cons (ih p) id
    | stopSign ss => exact (handleStopsign_steady p ss).append (ih _)

theorem noticeLeader_steady (p : PaxosReplica P) : Steady p (p.noticeLeader : Result P S M) := by
  unfold noticeLeader
  dsimp only
  split_ifs
  · exact Steady.cons (steady_nil rfl) id
  · exact steady_nil rfl

theorem handleDecided_steady (p : PaxosReplica P) (promise : Ballot) (entries : List Entry) :
    Steady p (p.handleDecided promise entries : Result P S M) := by
  unfold handleDecided
  split_ifs
  · exact respond_steady _ _ _
  · split
    · exact handleStopsign_steady _ _
    · exact steady_nil rfl

theorem getDecided_steady (p : PaxosReplica P) : Steady p (p.getDecided : Result P S M) := by
  have hnotice : Steady p (p.noticeLeader : Result P S M) := noticeLeader_steady p
  unfold getDecided
  dsimp only
  refine ⟨(handleDecided_steady _ _ _).data.trans hnotice.data, fun o ho => ?_⟩
  rcases List.mem_append.mp ho with ho | ho
  · exact hnotice.outs o ho
  · exact (handleDecided_steady _ _ _).outs o ho

theorem sendOutgoing_steady (p : PaxosReplica P) : Steady p (p.sendOutgoing : Result P S M) := by
  refine ⟨rfl, fun o ho => ?_⟩
  obtain ⟨m, -, rfl⟩ := List.mem_map.mp ho
  exact id

theorem receiveLocal_steady {rnds : List ℕ} {prio : ℕ} {m : PaxosReplicaMsg}
    (hm : ∀ ackClient, m ≠ .stop ackClient) (h : p.receiveLocal rnds prio m = some r) : Steady p r := by
  cases m with
  | propose proposal =>
    have h' : p.handlePropose proposal = some r := h
    unfold handlePropose at h'
    split at h'
    · cases h'
      exact steady_nil rfl
    · cases h'
      exact Steady.cons (steady_nil rfl) id
    · cases h'
  | proposeReconfiguration rp =>
    obtain ⟨newConfig, -, h⟩ := Option.bind_eq_some_iff.mp h
    split at h
    · cases h
      exact steady_nil rfl
    · cases h
  | localSegmentReq requestor sr metadata =>
    cases h
    exact Steady.cons (steady_nil rfl) id
  | stop ackClient => exact (hm ackClient rfl).elim

theorem handle_steady {e : ReplicaEvent M} (he : Shutdown.IsRoutineReplica e)
    (h : p.handle e = some r) : Steady p r := by
  cases e with
  | «local» m rnds prio =>
    refine receiveLocal_steady (fun ackClient hm => ?_) h
    rw [hm] at he
    exact he
  | timer =>
    have h' : p.handleTimer = some r := h
    unfold handleTimer at h'
    split_ifs at h'
    cases h'
    exact (getDecided_steady p).append (sendOutgoing_steady _)
  | raw m =>
    cases h
    unfold handleRaw
    split_ifs
    · exact steady_nil rfl
    · exact steady_nil rfl
  | leader l =>
    cases h
    unfold handleLeader
    dsimp only
    split_ifs
    · exact Steady.cons (steady_nil rfl) id
    · exact steady_nil rfl

omit [Paxos P S M] in
theorem Steady.packets (h : Steady p r) (k i : ℕ) : r.2.flatMap (ReplicaOut.packets k i) = [] := by
  rw [List.flatMap_eq_nil_iff]
  intro o ho
  cases o with
  | sendStop pid ackClient => exact (h.outs _ ho trivial).elim
  | _ => rfl

end PaxosReplica

/-- The replica does something else. -/
theorem ConfigComps.afterReplica_alike {P S M : Type} {u : ConfigComps P} {r : PaxosReplica.Result P S M}
    (h : PaxosReplica.Steady u.replica r) : Alike u (u.afterReplica r) := by
  have hdata := h.data
  simp only [PaxosReplica.stopData, Prod.mk.injEq] at hdata
  obtain ⟨hpid, hpeers, hstopped, hheard, hask⟩ := hdata
  have hcount : r.2.countP isStopReply = 0 := by
    rw [List.countP_eq_zero]
    intro o ho hreply
    cases o with
    | stopReply => exact h.outs _ ho trivial
    | _ => cases hreply
  refine ⟨rfl, ?_, rfl, hpid⟩
  unfold replicaHandshake afterReplica
  rw [hpeers, hstopped, hheard, hask, hcount]
  rfl

end OmniPaxosBench.OmniPaxos
