import OmniPaxosBench.Communicator
import OmniPaxosBench.Lib.Machine
import OmniPaxosBench.LeaderElection.BallotLeaderComp
import OmniPaxosBench.LeaderElection.MultiPaxosLeaderComp
import OmniPaxosBench.LeaderElection.VRLeaderElectionComp
import OmniPaxosBench.MultiPaxos.Acceptor
import OmniPaxosBench.MultiPaxos.Batcher
import OmniPaxosBench.MultiPaxos.Leader
import OmniPaxosBench.MultiPaxos.Participant
import OmniPaxosBench.MultiPaxos.ProxyLeader
import OmniPaxosBench.MultiPaxos.Replica

/-! # Recovering from a simulated partition

`PartitionedComp` is any of the ten components that simulate a partition. Each of them handles an event
of the partition as `Partition` does (`partition_handle`), so a result about `Partition` is one about all of
them.

A recovery clears the list of disconnected peers and leaves the scheduled closures alone. It is final
just when none of them has a peer to disconnect (`recovery_final_iff`). -/

namespace OmniPaxosBench

open Lib LeaderElection MultiPaxos

/-- The peers a closure will disconnect. -/
def Delayed.peers : Delayed → List ℕ
  | .push peers => peers
  | .assign peers => peers

/-- The call of `disconnect_peers`. -/
def PartitionEvent.IsDisconnect : PartitionEvent → Prop
  | .disconnectPeers _ _ _ => True
  | .recoverPeers | .fireDelayed _ => False

/-- A component that simulates partitions. -/
inductive PartitionedComp
  | communicator (c : Communicator)
  | ballotLeader (c : BallotLeaderComp)
  | vrLeaderElection (c : VRLeaderElectionComp)
  | multiPaxosLeader (c : MultiPaxosLeaderComp)
  | leader (c : MultiPaxos.Leader)
  | acceptor (c : Acceptor)
  | proxyLeader (c : ProxyLeader)
  | batcher (c : Batcher)
  | replica (c : Replica)
  | participant (c : Participant)

namespace PartitionedComp

/-- The list of disconnected peers, and the scheduled closures. -/
def partition : PartitionedComp → Partition
  | .communicator c => c.toPartition
  | .ballotLeader c => c.toPartition
  | .vrLeaderElection c => c.toPartition
  | .multiPaxosLeader c => c.toPartition
  | .leader c => c.toPartition
  | .acceptor c => c.toPartition
  | .proxyLeader c => c.toPartition
  | .batcher c => c.toPartition
  | .replica c => c.toPartition
  | .participant c => c.toPartition

/-- An event of the simulated partition, handled by the component. -/
def handle (c : PartitionedComp) (e : PartitionEvent) : Option PartitionedComp :=
  match c with
  | .communicator c => (c.handle (.partition e : CommunicatorEvent Unit)).map fun r => .communicator r.1
  | .ballotLeader c => (c.handle (.partition e)).map fun r => .ballotLeader r.1
  | .vrLeaderElection c =>
    (c.handle (.partition e)).bind fun r => r.toOption.map fun r => .vrLeaderElection r.1
  | .multiPaxosLeader c => (c.handle (.partition e)).map fun r => .multiPaxosLeader r.1
  | .leader c => (c.handle (.partition e)).map fun r => .leader r.1
  | .acceptor c => (c.toPartition.handlePartition e).map fun s => .acceptor { c with toPartition := s }
  | .proxyLeader c =>
    (c.toPartition.handlePartition e).map fun s => .proxyLeader { c with toPartition := s }
  | .batcher c => (c.handle (.partition e)).map fun r => .batcher r.1
  | .replica c => (c.handle (.partition e)).map fun r => .replica r.1
  | .participant c => (c.handle (.partition e)).map fun r => .participant r.1

/-- A component and the events of its partition. -/
def machine (c : PartitionedComp) : Machine PartitionedComp PartitionEvent where
  init := c
  step := handle

/-- All components handle the partition alike. -/
theorem partition_handle (c : PartitionedComp) (e : PartitionEvent) :
    (c.handle e).map partition = c.partition.handlePartition e := by
  cases c with
  | vrLeaderElection c =>
    unfold handle partition VRLeaderElectionComp.handle
    dsimp only
    cases c.toPartition.handlePartition e <;> rfl
  | _ =>
    simp [handle, partition, Communicator.handle, BallotLeaderComp.handle, MultiPaxosLeaderComp.handle,
      MultiPaxos.Leader.handle, Batcher.handle, Replica.handle, Participant.handle, Function.comp_def]

theorem handle_eq_some {c t : PartitionedComp} {e : PartitionEvent} (h : c.handle e = some t) :
    c.partition.handlePartition e = some t.partition := by
  rw [← partition_handle, h]
  rfl

/-- The closures still scheduled have no peers to disconnect, and no peer is disconnected. -/
structure Recovered (s : Partition) : Prop where
  connected : s.disconnectedPeers = []
  idle : ∀ d ∈ s.delayed, d.peers = []

/-- **One step**: without a call of `disconnect_peers` nothing disconnects a peer any more. -/
theorem Recovered.handlePartition {s t : Partition} {e : PartitionEvent} (h : Recovered s)
    (he : ¬ e.IsDisconnect) (hstep : s.handlePartition e = some t) : Recovered t := by
  cases e with
  | disconnectPeers peers delay laggingPeer => exact absurd trivial he
  | recoverPeers =>
    cases hstep
    exact ⟨rfl, h.idle⟩
  | fireDelayed i =>
    obtain ⟨d, hd, rfl⟩ := Option.map_eq_some_iff.mp hstep
    have hpeers := h.idle d (List.mem_of_getElem? hd)
    refine ⟨?_, fun d' hd' => h.idle d' (List.mem_of_mem_eraseIdx hd')⟩
    cases d with
    | push peers =>
      dsimp only
      rw [h.connected]
      exact hpeers
    | assign peers => exact hpeers

/-- **A whole run** after the recovery. -/
theorem Recovered.allStates {c d : PartitionedComp} {es : List PartitionEvent} (h : Recovered c.partition)
    (hes : ∀ e ∈ es, ¬ e.IsDisconnect) :
    d.machine.AllStates (fun c => c.partition.disconnectedPeers = []) c es := by
  induction es generalizing c with
  | nil => exact h.connected
  | cons e es ih =>
    refine ⟨h.connected, fun t ht => ?_⟩
    have hrec : Recovered t.partition :=
      h.handlePartition (hes e List.mem_cons_self) (handle_eq_some ht)
    exact ih hrec fun e' he' => hes e' (List.mem_cons_of_mem e he')

/-- A closure with peers disconnects them when it fires after the recovery. -/
theorem fire_after_recovery {s : Partition} {d : Delayed} {i : ℕ} (hd : s.delayed[i]? = some d) :
    ∃ t, s.recoverPeers.handlePartition (.fireDelayed i) = some t ∧ t.disconnectedPeers = d.peers := by
  refine ⟨_, Option.map_eq_some_iff.mpr ⟨d, hd, rfl⟩, ?_⟩
  cases d with
  | push peers => rfl
  | assign peers => rfl

/-- **The exact condition for a recovery to be final**: when `recover_peers` is called, no closure that is
still scheduled has a peer to disconnect. -/
theorem recovery_final_iff (c : PartitionedComp) :
    (∀ t, c.handle .recoverPeers = some t → ∀ es, (∀ e ∈ es, ¬ PartitionEvent.IsDisconnect e) →
      c.machine.AllStates (fun c => c.partition.disconnectedPeers = []) t es) ↔
    ∀ d ∈ c.partition.delayed, d.peers = [] := by
  have hrecover : ∃ t, c.handle .recoverPeers = some t ∧ t.partition = c.partition.recoverPeers := by
    have h := partition_handle c .recoverPeers
    obtain ⟨t, ht, heq⟩ := Option.map_eq_some_iff.mp h
    exact ⟨t, ht, heq⟩
  obtain ⟨t, ht, hpart⟩ := hrecover
  constructor
  · intro hfinal d hd
    obtain ⟨i, hi⟩ := List.getElem?_of_mem hd
    obtain ⟨s, hs, hpeers⟩ := fire_after_recovery hi
    have hfire := partition_handle t (.fireDelayed i)
    rw [hpart, hs] at hfire
    obtain ⟨u, hu, heq⟩ := Option.map_eq_some_iff.mp hfire
    have hempty := (hfinal t ht [.fireDelayed i] (by simp [PartitionEvent.IsDisconnect])).2 u hu
    rw [← hpeers, ← heq]
    exact hempty
  · intro hidle t' ht' es hes
    obtain rfl : t = t' := Option.some.inj (ht.symm.trans ht')
    have hrec : Recovered t.partition := by
      rw [hpart]
      exact ⟨rfl, hidle⟩
    exact hrec.allStates hes

/-- The leader's communicator in the constrained-election scenario: it is told twice to lag behind node
`2`, the recovery comes before the second closure fires. -/
theorem disconnected_after_recovery : ∃ c t,
    (machine (.communicator (.new [2, 3, 4, 5]))).run (.communicator (.new [2, 3, 4, 5]))
        [.disconnectPeers [] false (some 2), .fireDelayed 0, .disconnectPeers [3, 4, 5] false (some 2),
          .recoverPeers] = some c ∧
      c.partition.disconnectedPeers = [] ∧ c.handle (.fireDelayed 0) = some t ∧
      t.partition.disconnectedPeers = [3, 4, 5] :=
  ⟨_, _, rfl, rfl, rfl, rfl⟩

end PartitionedComp

end OmniPaxosBench
