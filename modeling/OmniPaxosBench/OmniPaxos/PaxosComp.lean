import OmniPaxosBench.OmniPaxos.Messages
import OmniPaxosBench.Lib.HashMap
import OmniPaxosBench.Lib.Timers
import Mathlib.Data.List.Sort

/-! # The supervisor of a node

`PaxosComp` takes the proposals of the clients to the replica of the active configuration, holds them
back while there is none that can take them, starts the replica of the next configuration when the
present one has ended, and, at a node that joins, first pulls the final sequences of all earlier
configurations. A handler returns the new state and what it sends; `none` is a panic.

`paxos_replicas`, `le_comps` and `communicator_comps` always have one length, so the state keeps that
length only: what is done to the components themselves is among the outputs. Left out are the measured
io, the names of the components and the experiment that disconnects peers. -/

namespace OmniPaxosBench.OmniPaxos

open LeaderElection OmniPaxosBench.Lib

structure ConfigMeta where
  id : ℕ
  leader : ℕ
  pendingReconfig : Bool
  deriving DecidableEq, Repr

def ConfigMeta.new (id : ℕ) : ConfigMeta := ⟨id, 0, false⟩

structure HoldBackProposals where
  deserialised : List Proposal
  serialised : List AtomicBroadcastMsg
  deriving DecidableEq, Repr

def HoldBackProposals.empty : HoldBackProposals := ⟨[], []⟩

/-- `is_empty`. -/
def HoldBackProposals.isEmpty (h : HoldBackProposals) : Prop := h.serialised = [] ∧ h.deserialised = []

instance (h : HoldBackProposals) : Decidable h.isEmpty := inferInstanceAs (Decidable (_ ∧ _))

/-- Which component elects the leaders. -/
inductive ElectionKind
  | ble
  | vr
  | multiPaxos
  deriving DecidableEq, Repr

/-- What a `PaxosComp` sends, and what it does to its components. -/
inductive CompOut
  /-- To the replica with this index. -/
  | replica (idx : ℕ) (m : PaxosReplicaMsg)
  /-- A replica and its components are created. -/
  | create (configId : ℕ) (peers : List ℕ)
  /-- `set_initial_replica_state_after_reconfig`. -/
  | setInitialState (configId : ℕ) (peers : List ℕ) (skipPrepareUseLeader : Option Leader)
  | start (configId : ℕ)
  /-- To the `PaxosComp` of a node. -/
  | reconfiguration (pid : ℕ) (m : ReconfigurationMsg)
  | forward (pid : ℕ) (m : AtomicBroadcastMsg)
  /-- To the client. -/
  | client (m : AtomicBroadcastMsg)
  | initAck (iterationId : ℕ)
  /-- `Stop` to the leader elections. -/
  | stopElections
  /-- `NetStopMsg::Peer` to the leader election and the communicator of a node. -/
  | stopPeer (configId : ℕ) (peer pid : ℕ)
  /-- All components are killed. -/
  | kill
  deriving DecidableEq, Repr

structure PaxosComp (S : Type) where
  pid : ℕ
  initialConfiguration : List ℕ
  isReconfigExp : Bool
  /-- The feature `simulate_partition`. -/
  simulatePartition : Bool
  leaderElection : ElectionKind
  /-- The number of replicas. -/
  replicas : ℕ
  activeConfig : ConfigMeta
  /-- The number of nodes. -/
  nodes : ℕ
  prevSequences : HashMap ℕ S
  stopped : Bool
  iterationId : ℕ
  nextConfigId : Option ℕ
  pendingSegments : HashMap ℕ (List SegmentIndex)
  receivedSegments : HashMap ℕ (List SequenceSegment)
  activeConfigReadyPeers : List ℕ
  handledSeqRequests : List SegmentRequest
  /-- The client is known. -/
  cachedClient : Bool
  hbProposals : HoldBackProposals
  firstConfigId : ℕ
  removed : Bool
  /-- The scheduled retries, with the configuration they are for. -/
  timers : Timers ℕ

/-- What can happen to a `PaxosComp`. -/
inductive CompEvent (S : Type)
  | local (m : PaxosCompMsg S)
  | atomicBroadcast (m : AtomicBroadcastMsg)
  /-- `PartitioningActorMsg::Init`. -/
  | init (nodes pid iterationId : ℕ)
  /-- `PartitioningActorMsg::Run`. -/
  | run
  | reconfigInit (r : ReconfigInit)
  | segmentRequest (sr : SegmentRequest) (requestor : ℕ)
  /-- With the index drawn when the transfer has failed. -/
  | segmentTransfer (st : SegmentTransfer) (rnd : ℕ)
  | clientStop
  /-- A retry timer fires. -/
  | timeout (id : ℕ)
  deriving DecidableEq, Repr

namespace PaxosComp

variable {S : Type} [SequenceTraits S]

/-- `PaxosComp::with`. -/
def new (initialConfiguration : List ℕ) (isReconfigExp simulatePartition : Bool)
    (leaderElection : ElectionKind) : PaxosComp S where
  pid := 0
  initialConfiguration := initialConfiguration
  isReconfigExp := isReconfigExp
  simulatePartition := simulatePartition
  leaderElection := leaderElection
  replicas := 0
  activeConfig := .new 0
  nodes := 0
  prevSequences := ∅
  stopped := false
  iterationId := 0
  nextConfigId := none
  pendingSegments := ∅
  receivedSegments := ∅
  activeConfigReadyPeers := []
  handledSeqRequests := []
  cachedClient := false
  hbProposals := .empty
  firstConfigId := 0
  removed := false
  timers := .empty

/-- The state and outputs after a handler. -/
abbrev After (S : Type) := PaxosComp S × List CompOut

variable (c : PaxosComp S)

/-- The node with this pid, if there is one. -/
def getActorpath (pid : ℕ) : Option ℕ := if 1 ≤ pid ∧ pid ≤ c.nodes then some pid else none

/-- The index of the replica of a configuration. -/
def replicaIdx (configId : ℕ) : Option ℕ :=
  let idx := (configId + 2 ^ 32 - c.firstConfigId) % 2 ^ 32
  if idx < c.replicas then some idx else none

/-! ### Replicas -/

def createReplica (configId : ℕ) (initialNodes : Option (List ℕ)) : Option (After S) :=
  let nodes := initialNodes.getD []
  let peers := nodes.filter (· ≠ c.pid)
  -- the views of a view-change election have the node itself, too
  let named := if c.leaderElection = .vr then nodes else peers
  -- and without views it has no capacity for its peers
  if (∀ p ∈ named, (c.getActorpath p).isSome) ∧ c.cachedClient ∧ (c.leaderElection = .vr → nodes ≠ []) then
    some ({ c with replicas := c.replicas + 1 }, [.create configId peers])
  else none

def setInitialReplicaStateAfterReconfig (configId : ℕ) (skipPrepareUseLeader : Option Leader)
    (peers : List ℕ) : Option (List CompOut) :=
  if (c.replicaIdx configId).isSome ∧ (∀ p ∈ peers, (c.getActorpath p).isSome) ∧
      c.leaderElection = .ble then
    some [.setInitialState configId peers skipPrepareUseLeader]
  else none

def startReplica (configId : ℕ) : Option (After S) :=
  if (c.replicaIdx configId).isSome then
    some ({ c with activeConfig := .new configId, nextConfigId := none }, [.start configId])
  else none

/-- `stop_components`. -/
def stopComponents : Option (After S) :=
  let c := { c with stopped := true }
  if c.replicas = 0 then none
  else
    let stops := .stopElections :: (List.range (c.replicas - 1)).map fun i => CompOut.replica i (.stop false)
    let out := stops ++ [.replica (c.replicas - 1) (.stop true)]
    if c.activeConfig.id < c.replicas then
      -- the experiment was finished before the replica was started
      let unstarted := if c.activeConfig.id = 0 then c.firstConfigId else c.replicas
      (c.startReplica unstarted).map fun (c, out') => (c, out ++ out')
    else some (c, out)

/-! ### Proposals -/

def propose (p : Proposal) : Option (List CompOut) :=
  (c.replicaIdx c.activeConfig.id).map fun idx => [.replica idx (.propose p)]

def proposeReconfiguration (rp : ReconfigurationProposal) : Option (List CompOut) :=
  (c.replicaIdx c.activeConfig.id).map fun idx => [.replica idx (.proposeReconfiguration rp)]

def deserialiseAndPropose : AtomicBroadcastMsg → Option (List CompOut)
  | .proposal p => c.propose p
  | .reconfigurationProposal rp => c.proposeReconfiguration rp
  | _ => some []

def proposeHbProposals : Option (After S) := do
  let ser ← c.hbProposals.serialised.mapM c.deserialiseAndPropose
  let deser ← c.hbProposals.deserialised.mapM c.propose
  return ({ c with hbProposals := .empty }, ser.flatten ++ deser.flatten)

def forwardHbProposals (pid : ℕ) : Option (After S) :=
  (c.getActorpath pid).map fun receiver =>
    ({ c with hbProposals := .empty },
      c.hbProposals.serialised.map (.forward receiver) ++
        c.hbProposals.deserialised.map fun p => .forward receiver (.proposal p))

/-- `PaxosCompMsg::Leader`. -/
def handleLeader (configId : ℕ) (pid round : ℕ) : Option (After S) :=
  if c.activeConfig.id = configId then
    let prevLeader := c.activeConfig.leader
    let c := { c with activeConfig := { c.activeConfig with leader := pid } }
    if pid = c.pid then
      if prevLeader = 0 ∨ c.simulatePartition then
        if c.cachedClient then
          c.proposeHbProposals.map fun (c, out) => (c, .client (.leader pid round) :: out)
        else none
      else c.proposeHbProposals
    else if ¬ c.hbProposals.isEmpty then c.forwardHbProposals c.activeConfig.leader
    else some (c, [])
  else some (c, [])

/-- `PaxosCompMsg::PendingReconfig`. -/
def handlePendingReconfig (data : Data) : PaxosComp S :=
  { c with
    activeConfig := { c.activeConfig with pendingReconfig := true }
    hbProposals := { c.hbProposals with deserialised := c.hbProposals.deserialised ++ [⟨data⟩] } }

/-- To whom the proposals held back go when the configuration has ended. -/
def hbReceiver (r : FinalMsg S) : Option ℕ :=
  match r.skipPrepareUseLeader with
  | some l => some l.pid
  | none => r.nodes.continuedNodes.head?.or r.nodes.newNodes.head?

/-- The first part of `PaxosCompMsg::Reconfig`: the final sequence is kept, and a node that stays
starts the next replica and tells the new nodes. -/
def finishConfig (r : FinalMsg S) : Option (After S) :=
  let prevConfigId := c.activeConfig.id
  let seqMetadata := ⟨prevConfigId, SequenceTraits.getSequenceLen r.finalSequence⟩
  let c := { c with prevSequences := c.prevSequences.insert prevConfigId r.finalSequence }
  if c.pid ∈ r.nodes.continuedNodes then do
    let set ← c.setInitialReplicaStateAfterReconfig r.configId r.skipPrepareUseLeader
      (r.nodes.getPeersOf c.pid)
    let (c, start) ← c.startReplica r.configId
    let inits ← r.nodes.newNodes.mapM fun pid => (c.getActorpath pid).map fun receiver =>
      CompOut.reconfiguration receiver
        (.init ⟨r.configId, r.nodes, seqMetadata, c.pid, r.skipPrepareUseLeader⟩)
    return (c, set ++ start ++ inits)
  else some ({ c with removed := true }, [])

/-- `PaxosCompMsg::Reconfig`. -/
def handleReconfig (r : FinalMsg S) : Option (After S) := do
  let (c, out) ← c.finishConfig r
  if ¬ c.hbProposals.isEmpty then
    let receiver ← hbReceiver r
    let (c, out') ← c.forwardHbProposals receiver
    return (c, out ++ out')
  else return (c, out)

/-- A message with the id `ATOMICBCAST_ID`. -/
def handleAtomicBroadcast (m : AtomicBroadcastMsg) : Option (After S) :=
  let hold := { c with
    hbProposals := { c.hbProposals with serialised := c.hbProposals.serialised ++ [m] } }
  if c.stopped then some (c, [])
  else if c.removed then if c.cachedClient then some (c, [.client m]) else none
  else if c.activeConfig.pendingReconfig then some (hold, [])
  else if c.activeConfig.leader = 0 then some (hold, [])
  else if c.activeConfig.leader = c.pid then (c.deserialiseAndPropose m).map fun out => (c, out)
  else (c.getActorpath c.activeConfig.leader).map fun leader => (c, [.forward leader m])

/-! ### Log transfer -/

/-- The segment each node is asked for. -/
def getNodeSegmentIdx (seqLen : ℕ) (fromNodes : List ℕ) : List (ℕ × SegmentIndex) :=
  let offset := seqLen / fromNodes.length
  fromNodes.zipIdx.map fun (pid, i) =>
    let fromIdx := i * offset
    let toIdx := if fromIdx + offset > seqLen then seqLen else fromIdx + offset
    (pid, ⟨fromIdx, toIdx⟩)

/-- Ask a node for a segment. -/
def request (configId : ℕ) (pid : ℕ) (idx : SegmentIndex) : Option CompOut :=
  (c.getActorpath pid).map fun receiver =>
    .reconfiguration receiver (.segmentRequest ⟨configId, idx, c.pid⟩)

def pullSequence (configId : ℕ) (seqLen : ℕ) (fromNodes : List ℕ) : Option (After S) :=
  -- the code divides by the number of nodes
  if fromNodes = [] then none
  else do
    let indices := getNodeSegmentIdx seqLen fromNodes
    let out ← indices.mapM fun (pid, segmentIdx) => c.request configId pid segmentIdx
    return ({ c with
      timers := c.timers.schedule configId
      pendingSegments := c.pendingSegments.insert configId (indices.map Prod.snd) }, out)

/-- The peer that is asked for the `i`-th remaining segment; there must be one. -/
def retryPeer (i : ℕ) : Option ℕ :=
  let numActivePeers := c.activeConfigReadyPeers.length
  if numActivePeers = 0 then none
  else
    let idx := if i < numActivePeers then numActivePeers - 1 - i
      else numActivePeers - 1 - i % numActivePeers
    c.activeConfigReadyPeers[idx]?

def retryPendingSegments (configId : ℕ) : Option (After S) := do
  let remaining := (c.pendingSegments.lookup configId).getD []
  let out ← remaining.zipIdx.mapM fun (segmentIdx, i) => do
    let pid ← c.retryPeer i
    c.request configId pid segmentIdx
  return ({ c with timers := c.timers.schedule configId }, out)

def getSequenceMetadata (configId : ℕ) : SequenceMetaData :=
  ⟨configId, match c.prevSequences.lookup configId with
    | some prevSeq => SequenceTraits.getSequenceLen prevSeq
    | none => 0⟩

def handleSegment (configId : ℕ) (s : SequenceSegment) : Option (PaxosComp S) :=
  let segments := (c.receivedSegments.lookup configId).getD []
  (c.pendingSegments.lookup configId).map fun pending =>
    { c with
      receivedSegments := c.receivedSegments.insert configId (segments ++ [s])
      pendingSegments := c.pendingSegments.insert configId (pending.filter (· ≠ s.idx)) }

/-- `sort_by_key` with the first index of a segment; equal keys keep their order. -/
def sortSegments (segments : List SequenceSegment) : List SequenceSegment :=
  segments.insertionSort fun s t => s.idx.fromIdx ≤ t.idx.fromIdx

def handleCompletedSequenceTransfer (configId : ℕ) : Option (After S) := do
  let segments ← c.receivedSegments.lookup configId
  let _ ← (sortSegments segments).getLast?
  let sequence := (sortSegments segments).flatMap SequenceSegment.entries
  let c := { c with
    receivedSegments := c.receivedSegments.erase configId
    prevSequences := c.prevSequences.insert configId (SequenceTraits.newWithSequence sequence)
    pendingSegments := c.pendingSegments.erase configId }
  let nextConfigId ← c.nextConfigId
  -- the sequences of all earlier configurations
  if c.prevSequences.len + 1 = nextConfigId then c.startReplica nextConfigId else some (c, [])

/-- The configuration before; a `u32`. -/
def prevConfig (configId : ℕ) : ℕ := (configId + 2 ^ 32 - 1) % 2 ^ 32

def handleSegmentRequest (sr : SegmentRequest) (requestor : ℕ) : Option (After S) :=
  let metadata := c.getSequenceMetadata (prevConfig sr.configId)
  let reply (succeeded : Bool) (entries : List Entry) := CompOut.reconfiguration requestor
    (.segmentTransfer ⟨sr.configId, succeeded, metadata, ⟨sr.idx, entries⟩⟩)
  if c.activeConfig.leader = sr.requestorPid ∨ sr ∈ c.handledSeqRequests then some (c, [])
  else match c.prevSequences.lookup sr.configId with
    | some seq =>
      let ents := SequenceTraits.getEntries seq sr.idx.fromIdx sr.idx.toIdx
      some ({ c with handledSeqRequests := c.handledSeqRequests ++ [sr] }, [reply true ents])
    | none =>
      if c.activeConfig.id = sr.configId then
        -- the replica might have the segment without having reached the final sequence
        (c.replicaIdx c.activeConfig.id).map fun idx =>
          (c, [.replica idx (.localSegmentReq requestor sr metadata)])
      else some (c, [reply false []])

def hasHandledSegment (configId : ℕ) (idx : SegmentIndex) : Prop :=
  (∃ s ∈ (c.receivedSegments.lookup configId).getD [], s.idx = idx) ∨ configId ≤ c.activeConfig.id ∨
    configId ∈ c.prevSequences

instance (configId : ℕ) (idx : SegmentIndex) : Decidable (c.hasHandledSegment configId idx) :=
  inferInstanceAs (Decidable (_ ∨ _))

/-- The first part of `handle_segment_transfer`: the sequence before is pulled too, if there is one and
it has not been. -/
def pullPrevious (metadata : SequenceMetaData) : Option (After S) :=
  if metadata.configId ≠ 0 ∧ metadata.configId ∉ c.prevSequences ∧
      metadata.configId ∉ c.pendingSegments then
    c.pullSequence metadata.configId metadata.len c.activeConfigReadyPeers
  else some (c, [])

/-- A segment that was transferred. -/
def acceptSegment (configId : ℕ) (s : SequenceSegment) : Option (After S) := do
  let c ← c.handleSegment configId s
  let pending ← c.pendingSegments.lookup configId
  if pending = [] then c.handleCompletedSequenceTransfer configId else some (c, [])

/-- A failed transfer: the segment is asked for again, from the peer drawn. -/
def askAgain (configId : ℕ) (idx : SegmentIndex) (rnd : ℕ) : Option (After S) :=
  if c.activeConfigReadyPeers = [] then some (c, [])
  else do
    let pid ← c.activeConfigReadyPeers[rnd]?
    let out ← c.request configId pid idx
    return (c, [out])

/-- The second part of `handle_segment_transfer`. -/
def handleOutcome (st : SegmentTransfer) (rnd : ℕ) : Option (After S) :=
  if st.succeeded then c.acceptSegment st.configId st.segment
  else c.askAgain st.configId st.segment.idx rnd

def handleSegmentTransfer (st : SegmentTransfer) (rnd : ℕ) : Option (After S) :=
  if c.hasHandledSegment st.configId st.segment.idx then some (c, [])
  else do
    let (c, pull) ← c.pullPrevious st.metadata
    let (c, out) ← c.handleOutcome st rnd
    return (c, pull ++ out)

/-- The final sequence of the only earlier configuration holds only the stop sign. -/
def startDirectly (configId prevConfigId : ℕ) : Option (After S) :=
  let finalSequence := SequenceTraits.newWithSequence []
  let c := { c with prevSequences := c.prevSequences.insert prevConfigId finalSequence }
  c.startReplica configId

/-- A peer of the next configuration that has the final sequence. -/
def addReadyPeer (r : ReconfigInit) : PaxosComp S :=
  if r.sender ∈ r.nodes.continuedNodes then
    { c with activeConfigReadyPeers := c.activeConfigReadyPeers ++ [r.sender] }
  else c

/-- Start the replica, or pull the sequence before it from the nodes that continue. -/
def startOrPull (r : ReconfigInit) : Option (After S) :=
  if r.seqMetadata.len = 1 ∧ r.seqMetadata.configId = 1 then
    c.startDirectly r.configId r.seqMetadata.configId
  else c.pullSequence r.seqMetadata.configId r.seqMetadata.len r.nodes.continuedNodes

/-- The first `ReconfigInit` of a configuration. -/
def beginJoin (r : ReconfigInit) : Option (After S) := do
  let c : PaxosComp S := { c with nextConfigId := some r.configId }
  let set ← c.setInitialReplicaStateAfterReconfig r.configId r.skipPrepareUseLeader
    (r.nodes.getPeersOf c.pid)
  let (c, out) ← (c.addReadyPeer r).startOrPull r
  return (c, set ++ out)

/-- A `ReconfigInit` for a higher configuration. -/
def join (r : ReconfigInit) : Option (After S) :=
  match c.nextConfigId with
  | none => c.beginJoin r
  | some nextConfigId => if nextConfigId = r.configId then some (c.addReadyPeer r, []) else some (c, [])

/-- `ReconfigurationMsg::Init`. -/
def handleReconfigInit (r : ReconfigInit) : Option (After S) :=
  if c.stopped then
    let peers := r.nodes.continuedNodes ++ r.nodes.newNodes
    if ∀ p ∈ peers, (c.getActorpath p).isSome then
      some (c, peers.map fun p => .stopPeer r.configId p c.pid)
    else none
  else if r.configId ≤ c.activeConfig.id then some (c, [])
  else c.join r

/-! ### Start and end -/

/-- `reset_state`. -/
def resetState : PaxosComp S :=
  { (new c.initialConfiguration c.isReconfigExp c.simulatePartition c.leaderElection : PaxosComp S) with
    timers := c.timers }

/-- The replica of the initial configuration. -/
def createInitial : Option (After S) :=
  if c.pid ∈ c.initialConfiguration then
    let c := { c with nextConfigId := some 1 }
    (c.createReplica 1 (some c.initialConfiguration)).map fun (c, out) =>
      ({ c with firstConfigId := 1 }, out)
  else some (c, [])

/-- The replica to be used after a reconfiguration. -/
def createSpare : Option (After S) :=
  if c.isReconfigExp then
    (c.createReplica 2 none).map fun (c, out) =>
      (if c.firstConfigId ≠ 1 then { c with firstConfigId := 2 } else c, out)
  else some (c, [])

/-- `PartitioningActorMsg::Init`. -/
def handleInit (nodes pid iterationId : ℕ) : Option (After S) := do
  let c : PaxosComp S := { c.resetState with
    nodes := nodes, pid := pid, iterationId := iterationId, cachedClient := true }
  let (c, initial) ← c.createInitial
  let (c, spare) ← c.createSpare
  return (c, initial ++ spare ++ [.initAck iterationId])

/-- `PartitioningActorMsg::Run`. -/
def handleRun : Option (After S) :=
  match c.nextConfigId with
  | some configId => c.startReplica configId
  | none => some (c, [])

/-- One event; `none` if it cannot happen, or panics. -/
def handle : CompEvent S → Option (After S)
  | .local (.leader configId pid round) => c.handleLeader configId pid round
  | .local (.pendingReconfig data) => some (c.handlePendingReconfig data, [])
  | .local (.reconfig r) => c.handleReconfig r
  | .local .killComponents => some ({ c with replicas := 0 }, [.kill])
  | .atomicBroadcast m => c.handleAtomicBroadcast m
  | .init nodes pid iterationId => c.handleInit nodes pid iterationId
  | .run => c.handleRun
  | .reconfigInit r => c.handleReconfigInit r
  | .segmentRequest sr requestor => if c.stopped then some (c, []) else c.handleSegmentRequest sr requestor
  | .segmentTransfer st rnd => if c.stopped then some (c, []) else c.handleSegmentTransfer st rnd
  | .clientStop => c.stopComponents
  | .timeout id => (c.timers.fire id).bind fun (configId, timers) =>
    { c with timers := timers }.retryPendingSegments configId

end PaxosComp

end OmniPaxosBench.OmniPaxos
