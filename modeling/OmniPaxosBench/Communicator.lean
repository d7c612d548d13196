import OmniPaxosBench.Partition
import OmniPaxosBench.OmniPaxos.Messages

/-! # The communicator

A node's Paxos or Raft replica reaches the network through a `Communicator`: requests of the replica go
out to the peers and to the client, messages of the peers come in as indications. Messages to and from
disconnected peers are dropped. The code treats messages of Raft and of Paxos alike; `B` is what they
carry. -/

namespace OmniPaxosBench

open OmniPaxos

/-- A message of Raft or of Paxos. -/
structure PeerMsg (B : Type) where
  sender : ℕ
  receiver : ℕ
  body : B
  deriving DecidableEq, Repr

/-- What a replica asks of its communicator. -/
inductive CommunicatorMsg (B : Type)
  | rawMsg (m : PeerMsg B)
  | proposalResponse (data : Data) (latestLeader leaderRound : ℕ)
  | reconfigurationResponse (latestLeader leaderRound : ℕ) (currentConfiguration : List ℕ)
  | sendStop (myPid : ℕ) (ackClient : Bool)
  deriving DecidableEq, Repr

inductive CommunicatorEvent (B : Type)
  | request (m : CommunicatorMsg B)
  | receive (m : PeerMsg B)
  | receiveStop (pid : ℕ)
  | partition (e : PartitionEvent)
  deriving DecidableEq, Repr

inductive CommunicatorOut (B : Type)
  | toPeer (pid : ℕ) (m : PeerMsg B)
  | stopPeer (pid myPid : ℕ)
  | toClient (m : AtomicBroadcastMsg)
  | stopClient (myPid : ℕ)
  /-- The indications to the replica. -/
  | indicate (m : PeerMsg B)
  | indicateStop (pid : ℕ)
  deriving DecidableEq, Repr

/-- The peers are the keys of the map from pids to actor paths. -/
structure Communicator extends Partition where
  peers : List ℕ
  deriving DecidableEq, Repr

namespace Communicator

variable {B : Type} (c : Communicator)

/-- `Communicator::with`. -/
def new (peers : List ℕ) : Communicator where
  peers := peers

/-- `CommunicatorMsg::SendStop`. -/
def handleSendStop (myPid : ℕ) (ackClient : Bool) : Communicator × List (CommunicatorOut B) :=
  ({ c with disconnectedPeers := [] },
    c.peers.map (fun pid => .stopPeer pid myPid) ++ if ackClient then [.stopClient myPid] else [])

/-- A `NetStopMsg::Peer`. -/
def handlePeerStop (pid : ℕ) : Communicator × List (CommunicatorOut B) := (c, [.indicateStop pid])

/-- A request of the replica; `none` if the receiver is not a known peer. -/
def handleRequest : CommunicatorMsg B → Option (Communicator × List (CommunicatorOut B))
  | .rawMsg m =>
    if m.receiver ∈ c.disconnectedPeers then some (c, [])
    else if m.receiver ∈ c.peers then some (c, [.toPeer m.receiver m])
    else none
  | .proposalResponse data latestLeader leaderRound =>
    some (c, [.toClient (.proposalResp data latestLeader leaderRound)])
  | .reconfigurationResponse latestLeader leaderRound currentConfiguration =>
    some (c, [.toClient (.reconfigurationResp latestLeader leaderRound currentConfiguration)])
  | .sendStop myPid ackClient => some (c.handleSendStop myPid ackClient)

/-- One event; `none` if the code panics or the event cannot happen. -/
def handle : CommunicatorEvent B → Option (Communicator × List (CommunicatorOut B))
  | .request m => c.handleRequest m
  | .receive m => some (c, if m.sender ∈ c.disconnectedPeers then [] else [.indicate m])
  | .receiveStop pid => some (c.handlePeerStop pid)
  | .partition e => (c.toPartition.handlePartition e).map fun s => ({ c with toPartition := s }, [])

end Communicator

end OmniPaxosBench
