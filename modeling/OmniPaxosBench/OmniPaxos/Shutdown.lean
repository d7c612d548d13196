import OmniPaxosBench.Communicator
import OmniPaxosBench.LeaderElection.BallotLeaderComp
import OmniPaxosBench.OmniPaxos.PaxosComp
import OmniPaxosBench.OmniPaxos.PaxosReplica
import OmniPaxosBench.Lib.Machine

/-! # Reconfiguration and shutdown

The nodes of a deployment go from a first configuration to a second one, and are stopped. At each node
a `PaxosComp` supervises, for each configuration it has, a leader election, a replica and a communicator.
The components of the second configuration are created without peers: a node that continues sets them
when its first configuration has ended, a new node with the first `ReconfigInit`. When the client stops
a node, its `PaxosComp` asks all leader elections and replicas to stop; these tell their peers, the
replicas through their communicators, and answer when all of their peers have told them.

Everything that is sent about this is in flight until it is delivered, in any order, and to a component
only once it is started. All else that clients, nodes and timers do can happen at any time. -/

namespace OmniPaxosBench.OmniPaxos

open LeaderElection OmniPaxosBench.Lib PaxosComp

/-! ### The components of a configuration -/

/-- What can happen to a replica apart from the stop of a peer. -/
inductive ReplicaEvent (M : Type)
  | local (m : PaxosReplicaMsg) (rnds : List ℕ) (prioStartRound : ℕ)
  | timer
  | raw (m : M)
  | leader (l : Leader)

def PaxosReplica.handle {P S M : Type} [Paxos P S M] (p : PaxosReplica P) :
    ReplicaEvent M → Option (Result P S M)
  | .local m rnds prioStartRound => p.receiveLocal rnds prioStartRound m
  | .timer => p.handleTimer
  | .raw m => some (p.handleRaw m)
  | .leader l => some (p.handleLeader l)

/-- The components that a node has for a configuration. -/
structure ConfigComps (P : Type) where
  ble : BallotLeaderComp
  replica : PaxosReplica P
  communicator : Communicator
  started : Bool
  /-- The `Stop` asks that were answered; no handler reads these. -/
  bleAnswers : ℕ
  replicaAnswers : ℕ

namespace ConfigComps

variable {P S M : Type}

/-- `create_replica`. -/
def create (configId pid : ℕ) (peers : List ℕ) (paxos : P) : ConfigComps P where
  ble := .new peers pid none
  replica := .new peers configId pid paxos
  communicator := .new peers
  started := false
  bleAnswers := 0
  replicaAnswers := 0

variable [Paxos P S M] (u : ConfigComps P)

/-- `set_initial_replica_state_after_reconfig`. -/
def setInitialState (configId : ℕ) (peers : List ℕ) (skipPrepareUseLeader : Option Leader) :
    Option (ConfigComps P) :=
  let ble := u.ble.setPeersAfterReconfig peers
  (match skipPrepareUseLeader with
    | some l => (ble.setInitialLeader l).map Prod.fst
    | none => some ble).map fun ble =>
    { u with
      ble := ble
      replica := u.replica.setInitialState configId peers skipPrepareUseLeader
      communicator := { u.communicator with peers := peers } }

/-- `start_replica`; components that run already are not started again. -/
def start : ConfigComps P :=
  if u.started then u
  else { u with ble := u.ble.onStart.1, replica := u.replica.onStart, started := true }

/-- After a handler of the leader election. -/
def afterBle (r : BallotLeaderComp × List BleOut) : ConfigComps P :=
  { u with ble := r.1, bleAnswers := u.bleAnswers + r.2.count .stopReply }

def isStopReply : ReplicaOut S M → Bool
  | .stopReply => true
  | _ => false

/-- After a handler of the replica. -/
def afterReplica (r : PaxosReplica.Result P S M) : ConfigComps P :=
  { u with replica := r.1, replicaAnswers := u.replicaAnswers + r.2.countP isStopReply }

end ConfigComps

/-! ### The nodes -/

/-- What is on the way, with the node it is for. -/
inductive Packet
  | reconfigInit (node : ℕ) (r : ReconfigInit)
  /-- A `Stop` ask to a leader election. -/
  | bleStop (configId node pid : ℕ)
  /-- A `Stop` ask to a replica. -/
  | replicaStop (configId node : ℕ) (ackClient : Bool)
  /-- `NetStopMsg::Peer` to a leader election. -/
  | blePeer (configId node pid : ℕ)
  /-- `CommunicatorMsg::SendStop`. -/
  | sendStop (configId node pid : ℕ) (ackClient : Bool)
  /-- `NetStopMsg::Peer` to a communicator. -/
  | commPeer (configId node pid : ℕ)
  /-- `AtomicBroadcastCompMsg::StopMsg`. -/
  | stopMsg (configId node pid : ℕ)
  deriving DecidableEq, Repr

/-- What a `PaxosComp` at a node sends. -/
def PaxosComp.packets {S : Type} (c : PaxosComp S) (node : ℕ) : CompOut → List Packet
  | .replica idx (.stop ackClient) => [.replicaStop (c.firstConfigId + idx) node ackClient]
  | .reconfiguration receiver (.init r) => [.reconfigInit receiver r]
  | .stopElections => (List.range c.replicas).map fun idx => .bleStop (c.firstConfigId + idx) node c.pid
  | .stopPeer configId peer pid => [.blePeer configId peer pid, .commPeer configId peer pid]
  | _ => []

def BleOut.packets (configId : ℕ) : BleOut → List Packet
  | .peerStop peer pid => [.blePeer configId peer pid]
  | _ => []

def ReplicaOut.packets {S M : Type} (configId node : ℕ) : ReplicaOut S M → List Packet
  | .sendStop pid ackClient => [.sendStop configId node pid ackClient]
  | _ => []

def CommunicatorOut.packets {M : Type} (configId node : ℕ) : CommunicatorOut M → List Packet
  | .stopPeer peer pid => [.commPeer configId peer pid]
  | .indicateStop pid => [.stopMsg configId node pid]
  | _ => []

/-- The nodes `1`, …, `nodes`, the nodes of the first configuration, and those that its stop sign names
for the second. The replicas are created with any Paxos. -/
structure Deployment (P : Type) where
  nodes : ℕ
  initial : List ℕ
  next : List ℕ
  simulatePartition : Bool
  iterationId : ℕ
  paxos : ℕ → ℕ → P
  initial_nodup : initial.Nodup
  next_nodup : next.Nodup
  initial_nodes : ∀ p ∈ initial, 1 ≤ p ∧ p ≤ nodes
  next_nodes : ∀ p ∈ next, 1 ≤ p ∧ p ≤ nodes

namespace Deployment

variable {P S : Type} (D : Deployment P)

/-- What `handle_stopsign` makes of the stop sign. -/
def reconfig : Reconfig := ⟨D.next.filter (· ∈ D.initial), D.next.filter (¬ · ∈ D.initial)⟩

/-- The nodes of a configuration. -/
def conf : ℕ → List ℕ
  | 1 => D.initial
  | 2 => D.reconfig.continuedNodes ++ D.reconfig.newNodes
  | _ => []

variable [SequenceTraits S]

/-- A node is initialised. -/
def initNode (i : ℕ) : Option (After S) :=
  (PaxosComp.new D.initial true D.simulatePartition .ble).handleInit D.nodes i D.iterationId

end Deployment

/-- The peers that the components of a configuration are created with. -/
def createdPeers (configId : ℕ) (out : List CompOut) : List ℕ :=
  (out.findSome? fun
    | .create id peers => if id = configId then some peers else none
    | _ => none).getD []

/-- All nodes. -/
structure Shutdown (P S : Type) where
  comp : ℕ → PaxosComp S
  /-- By configuration and node. -/
  comps : ℕ → ℕ → ConfigComps P
  flight : List Packet
  /-- The nodes at which the first configuration has ended. -/
  finished : List ℕ

/-- What can happen. -/
inductive ShutdownEvent (S M : Type)
  | clientStop (node : ℕ)
  /-- The replica of the first configuration hands its final sequence over. -/
  | reconfig (node : ℕ) (finalSequence : S) (skipPrepareUseLeader : Option Leader)
  | deliver (m : Packet)
  /-- Other events of a `PaxosComp`, a leader election, a replica and a communicator. -/
  | comp (node : ℕ) (e : CompEvent S)
  | ble (configId node : ℕ) (e : BleEvent)
  | replica (configId node : ℕ) (e : ReplicaEvent M)
  | communicator (configId node : ℕ) (e : CommunicatorEvent M)

namespace Shutdown

variable {P S M : Type}

/-- Events of a `PaxosComp` that are not about stopping or reconfiguration. -/
def IsRoutine : CompEvent S → Prop
  | .local (.leader _ _ _) | .local (.pendingReconfig _) | .atomicBroadcast _ | .run
  | .segmentRequest _ _ | .segmentTransfer _ _ | .timeout _ => True
  | _ => False

instance : ∀ e : CompEvent S, Decidable (IsRoutine e)
  | .local (.leader _ _ _) | .local (.pendingReconfig _) | .atomicBroadcast _ | .run
  | .segmentRequest _ _ | .segmentTransfer _ _ | .timeout _ => isTrue trivial
  | .local (.reconfig _) | .local .killComponents | .init _ _ _ | .reconfigInit _
  | .clientStop => isFalse id

def IsRoutineBle : BleEvent → Prop
  | .stop _ | .peerStop _ => False
  | _ => True

instance : ∀ e, Decidable (IsRoutineBle e)
  | .stop _ | .peerStop _ => isFalse id
  | .timeout _ | .request _ _ | .reply _ | .partition _ => isTrue trivial

def IsRoutineReplica : ReplicaEvent M → Prop
  | .local (.stop _) _ _ => False
  | _ => True

instance : ∀ e : ReplicaEvent M, Decidable (IsRoutineReplica e)
  | .local (.stop _) _ _ => isFalse id
  | .local (.propose _) _ _ | .local (.proposeReconfiguration _) _ _
  | .local (.localSegmentReq _ _ _) _ _ | .timer | .raw _ | .leader _ => isTrue trivial

def IsRoutineCommunicator : CommunicatorEvent M → Prop
  | .request (.sendStop _ _) | .receiveStop _ => False
  | _ => True

instance : ∀ e : CommunicatorEvent M, Decidable (IsRoutineCommunicator e)
  | .request (.sendStop _ _) | .receiveStop _ => isFalse id
  | .request (.rawMsg _) | .request (.proposalResponse _ _ _) | .request (.reconfigurationResponse _ _ _)
  | .receive _ | .partition _ => isTrue trivial

variable (s : Shutdown P S)

/-- Change the components of a configuration at a node. -/
def setComps (k i : ℕ) (u : ConfigComps P) : Shutdown P S :=
  { s with comps := Function.update s.comps k (Function.update (s.comps k) i u) }

def send (ms : List Packet) : Shutdown P S := { s with flight := s.flight ++ ms }

variable [Paxos P S M]

/-- What the `PaxosComp` of node `i` does to its components. -/
def applyOut (i : ℕ) (s : Shutdown P S) : CompOut → Option (Shutdown P S)
  | .setInitialState k peers skipPrepareUseLeader =>
    ((s.comps k i).setInitialState k peers skipPrepareUseLeader).map (s.setComps k i)
  | .start k => some (s.setComps k i (s.comps k i).start)
  | _ => some s

/-- After a handler of the `PaxosComp` of node `i`. -/
def afterComp (i : ℕ) (r : After S) : Option (Shutdown P S) :=
  (r.2.foldlM (applyOut i) { s with comp := Function.update s.comp i r.1 }).map fun t =>
    t.send (r.2.flatMap (r.1.packets i))

/-- After a handler of a leader election. -/
def afterBle (k i : ℕ) (r : BallotLeaderComp × List BleOut) : Shutdown P S :=
  (s.setComps k i ((s.comps k i).afterBle r)).send (r.2.flatMap (BleOut.packets k))

/-- After a handler of a replica. -/
def afterReplica (k i : ℕ) (r : PaxosReplica.Result P S M) : Shutdown P S :=
  (s.setComps k i ((s.comps k i).afterReplica r)).send (r.2.flatMap (ReplicaOut.packets k i))

/-- After a handler of a communicator. -/
def afterCommunicator (k i : ℕ) (r : Communicator × List (CommunicatorOut M)) : Shutdown P S :=
  (s.setComps k i { s.comps k i with communicator := r.1 }).send (r.2.flatMap (CommunicatorOut.packets k i))

variable [SequenceTraits S]

/-- A packet is handled. -/
def handle : Packet → Option (Shutdown P S)
  | .reconfigInit i r => ((s.comp i).handle (.reconfigInit r)).bind (s.afterComp i)
  | .bleStop k i pid =>
    if (s.comps k i).started then some (s.afterBle k i ((s.comps k i).ble.handleStop pid)) else none
  | .replicaStop k i ackClient =>
    if (s.comps k i).started then
      some (s.afterReplica (M := M) k i ((s.comps k i).replica.handleStop ackClient))
    else none
  | .blePeer k i pid =>
    if (s.comps k i).started then ((s.comps k i).ble.handlePeerStop pid).map (s.afterBle k i) else none
  | .sendStop k i pid ackClient =>
    if (s.comps k i).started then
      some (s.afterCommunicator (M := M) k i ((s.comps k i).communicator.handleSendStop pid ackClient))
    else none
  | .commPeer k i pid =>
    if (s.comps k i).started then
      some (s.afterCommunicator (M := M) k i ((s.comps k i).communicator.handlePeerStop pid))
    else none
  | .stopMsg k i pid =>
    if (s.comps k i).started then
      ((s.comps k i).replica.handlePeerStop pid).map (s.afterReplica (M := M) k i)
    else none

/-- One event; `none` if it cannot happen, or panics. -/
def step (D : Deployment P) : ShutdownEvent S M → Option (Shutdown P S)
  | .clientStop i =>
    -- a node gets one client stop
    if (s.comp i).stopped then none else ((s.comp i).handle .clientStop).bind (s.afterComp i)
  | .reconfig i finalSequence skipPrepareUseLeader =>
    if i ∈ D.initial ∧ i ∉ s.finished then
      ((s.comp i).handle (.local (.reconfig ⟨2, D.reconfig, finalSequence, skipPrepareUseLeader⟩))).bind
        ({ s with finished := i :: s.finished }.afterComp i)
    else none
  | .deliver m => if m ∈ s.flight then { s with flight := s.flight.erase m }.handle m else none
  | .comp i e => if IsRoutine e then ((s.comp i).handle e).bind (s.afterComp i) else none
  | .ble k i e =>
    if (s.comps k i).started ∧ IsRoutineBle e then ((s.comps k i).ble.handle e).map (s.afterBle k i)
    else none
  | .replica k i e =>
    if (s.comps k i).started ∧ IsRoutineReplica e then
      ((s.comps k i).replica.handle e).map (s.afterReplica k i)
    else none
  | .communicator k i e =>
    if (s.comps k i).started ∧ IsRoutineCommunicator e then
      ((s.comps k i).communicator.handle e).map (s.afterCommunicator k i)
    else none

/-- All nodes are initialised. -/
def init (D : Deployment P) : Shutdown P S where
  comp i := (D.initNode i).elim (PaxosComp.new [] true D.simulatePartition .ble) Prod.fst
  comps k i :=
    .create k i (createdPeers k ((D.initNode (S := S) i).elim [] Prod.snd)) (D.paxos k i)
  flight := []
  finished := []

def machine (D : Deployment P) : Machine (Shutdown P S) (ShutdownEvent S M) :=
  ⟨init D, fun s e => s.step D e⟩

end Shutdown

end OmniPaxosBench.OmniPaxos
