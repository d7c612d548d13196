import Mathlib.Data.List.Basic

/-! # Multi-Paxos: messages

The messages of `multi_paxos/messages.rs`. Rounds, slots and pids are natural numbers; a command is
the byte string of a proposal. -/

namespace OmniPaxosBench.MultiPaxos

abbrev ProposalType := List UInt8

/-- A client's proposal. -/
structure Proposal where
  data : ProposalType
  deriving DecidableEq, Repr

/-- The answer a client gets. -/
structure ProposalResp where
  data : ProposalType
  latestLeader : ℕ
  leaderRound : ℕ
  deriving DecidableEq, Repr

structure Phase1a where
  src : ℕ
  round : ℕ
  chosenWatermark : ℕ
  deriving DecidableEq, Repr

inductive CommandBatchOrNoop
  | commandBatch (batch : List ProposalType)
  | noop
  deriving DecidableEq, Repr

/-- What an acceptor reports about one slot. -/
structure Phase1bSlotInfo where
  slot : ℕ
  voteRound : ℕ
  voteValue : CommandBatchOrNoop
  deriving DecidableEq, Repr

structure Phase1b where
  acceptorIndex : ℕ
  round : ℕ
  info : List Phase1bSlotInfo
  deriving DecidableEq, Repr

structure Phase2a where
  src : ℕ
  slot : ℕ
  round : ℕ
  commandBatchOrNoop : CommandBatchOrNoop
  deriving DecidableEq, Repr

structure Phase2b where
  acceptorIndex : ℕ
  slot : ℕ
  round : ℕ
  deriving DecidableEq, Repr

structure Chosen where
  slot : ℕ
  commandBatchOrNoop : CommandBatchOrNoop
  deriving DecidableEq, Repr

structure Nack where
  round : ℕ
  deriving DecidableEq, Repr

structure ChosenWatermark where
  slot : ℕ
  deriving DecidableEq, Repr

structure Recover where
  slot : ℕ
  deriving DecidableEq, Repr

/-- The messages a `Leader` accepts from the network. -/
inductive LeaderInbound
  | phase1b (m : Phase1b)
  | nack (m : Nack)
  | chosenWatermark (m : ChosenWatermark)
  | recover (m : Recover)
  | clientRequestBatch (batch : List Proposal)
  | leaderInfoRequestBatcher (src : ℕ)
  deriving DecidableEq, Repr

/-- The messages an `Acceptor` accepts from the network. -/
inductive AcceptorInbound
  | phase1a (m : Phase1a)
  | phase2a (m : Phase2a)
  deriving DecidableEq, Repr

/-- The messages a `Replica` accepts from the network. -/
inductive ReplicaInbound
  | chosen (m : Chosen)
  deriving DecidableEq, Repr

/-- The messages a `ProxyLeader` accepts, from its leader or from the network. -/
inductive ProxyLeaderInbound
  | phase2a (m : Phase2a)
  | phase2b (m : Phase2b)
  deriving DecidableEq, Repr

/-- The messages a `Batcher` accepts from the network. -/
inductive BatcherInbound
  | notLeaderBatcher (batch : List Proposal)
  | leaderInfoReplyBatcher (round : ℕ)
  deriving DecidableEq, Repr

end OmniPaxosBench.MultiPaxos
