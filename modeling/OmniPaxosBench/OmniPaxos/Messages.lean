import OmniPaxosBench.LeaderElection.Ballot

/-! # Omni-Paxos with reconfiguration: messages

A node runs one `PaxosComp`, which supervises one `PaxosReplica` per configuration. A configuration ends
with a `StopSign` in its log; its log up to there is its final sequence. The nodes of the next
configuration that were not in this one are told by a `ReconfigInit`, and pull the final sequences of
all earlier configurations, in segments, from the nodes that have them.

The sequences and the Paxos of a replica are those of a library: a sequence is a value of a type with
`SequenceTraits`. -/

namespace OmniPaxosBench.OmniPaxos

open LeaderElection

/-- The data of a proposal. -/
abbrev Data := List UInt8

structure StopSign where
  configId : ℕ
  nodes : List ℕ
  skipPrepareUseLeader : Option Leader
  deriving DecidableEq, Repr

inductive Entry
  | normal (data : Data)
  | stopSign (ss : StopSign)
  deriving DecidableEq, Repr

/-- The operations of a sequence of entries. -/
class SequenceTraits (S : Type) where
  newWithSequence : List Entry → S
  getSequenceLen : S → ℕ
  /-- The entries from the first index up to the second. -/
  getEntries : S → ℕ → ℕ → List Entry

/-- `S::new`. -/
def SequenceTraits.new {S : Type} [SequenceTraits S] : S := newWithSequence []

/-- Lists as sequences. -/
instance : SequenceTraits (List Entry) where
  newWithSequence l := l
  getSequenceLen l := l.length
  getEntries l fromIdx toIdx := (l.drop fromIdx).take (toIdx - fromIdx)

/-! ### Clients -/

structure Proposal where
  data : Data
  deriving DecidableEq, Repr

inductive ReconfigurationPolicy
  | replaceLeader
  | replaceFollower
  deriving DecidableEq, Repr

structure ReconfigurationProposal where
  policy : ReconfigurationPolicy
  newNodes : List ℕ
  deriving DecidableEq, Repr

/-- Remove the entries at the given indices, one after the other. -/
def removeAll (nodes : List ℕ) : List ℕ → Option (List ℕ)
  | [] => some nodes
  | rnd :: rest => if rnd < nodes.length then removeAll (nodes.eraseIdx rnd) rest else none

/-- The number of followers to remove. -/
def ReconfigurationProposal.numRemove (rp : ReconfigurationProposal) : ℕ :=
  match rp.policy with
  | .replaceFollower => rp.newNodes.length
  | .replaceLeader => (rp.newNodes.length + 2 ^ 64 - 1) % 2 ^ 64

/-- `get_new_configuration`; `rnds` are the indices drawn, `none` if they cannot have been drawn. -/
def ReconfigurationProposal.getNewConfiguration (rp : ReconfigurationProposal) (leaderPid : ℕ)
    (currentConfiguration rnds : List ℕ) : Option (List ℕ) :=
  let nodes := currentConfiguration.filter (· ≠ leaderPid)
  if rnds.length = rp.numRemove then
    (removeAll nodes rnds).map fun nodes => match rp.policy with
      | .replaceFollower => nodes ++ rp.newNodes ++ [leaderPid]
      | .replaceLeader => nodes ++ rp.newNodes
  else none

inductive AtomicBroadcastMsg
  | proposal (p : Proposal)
  | reconfigurationProposal (rp : ReconfigurationProposal)
  | proposalResp (data : Data) (latestLeader leaderRound : ℕ)
  | reconfigurationResp (latestLeader leaderRound : ℕ) (currentConfiguration : List ℕ)
  | leader (pid round : ℕ)
  deriving DecidableEq, Repr

/-! ### Reconfiguration -/

structure SegmentIndex where
  fromIdx : ℕ
  toIdx : ℕ
  deriving DecidableEq, Repr

structure SequenceSegment where
  idx : SegmentIndex
  entries : List Entry
  deriving DecidableEq, Repr

/-- The length of the final sequence of a configuration. -/
structure SequenceMetaData where
  configId : ℕ
  len : ℕ
  deriving DecidableEq, Repr

structure SegmentTransfer where
  configId : ℕ
  succeeded : Bool
  metadata : SequenceMetaData
  segment : SequenceSegment
  deriving DecidableEq, Repr

structure SegmentRequest where
  configId : ℕ
  idx : SegmentIndex
  requestorPid : ℕ
  deriving DecidableEq, Repr

structure Reconfig where
  continuedNodes : List ℕ
  newNodes : List ℕ
  deriving DecidableEq, Repr

def Reconfig.getPeersOf (r : Reconfig) (pid : ℕ) : List ℕ :=
  (r.continuedNodes ++ r.newNodes).filter (· ≠ pid)

structure ReconfigInit where
  configId : ℕ
  nodes : Reconfig
  seqMetadata : SequenceMetaData
  sender : ℕ
  skipPrepareUseLeader : Option Leader
  deriving DecidableEq, Repr

inductive ReconfigurationMsg
  | init (r : ReconfigInit)
  | segmentRequest (sr : SegmentRequest)
  | segmentTransfer (st : SegmentTransfer)
  deriving DecidableEq, Repr

/-! ### Between a `PaxosComp` and its replicas -/

/-- What a replica hands over when its `StopSign` is decided. -/
structure FinalMsg (S : Type) where
  configId : ℕ
  nodes : Reconfig
  finalSequence : S
  skipPrepareUseLeader : Option Leader
  deriving DecidableEq, Repr

inductive PaxosReplicaMsg
  | propose (p : Proposal)
  | proposeReconfiguration (rp : ReconfigurationProposal)
  | localSegmentReq (requestor : ℕ) (sr : SegmentRequest) (prevSeqMetadata : SequenceMetaData)
  | stop (ackClient : Bool)
  deriving DecidableEq, Repr

inductive PaxosCompMsg (S : Type)
  | leader (configId : ℕ) (pid round : ℕ)
  | pendingReconfig (data : Data)
  | reconfig (r : FinalMsg S)
  | killComponents
  deriving DecidableEq, Repr

end OmniPaxosBench.OmniPaxos
