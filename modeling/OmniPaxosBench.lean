import OmniPaxosBench.Lib.Machine
import OmniPaxosBench.Lib.Voting
import OmniPaxosBench.Lib.Timers
import OmniPaxosBench.Lib.HashMap
import OmniPaxosBench.Lib.Walks
import OmniPaxosBench.Partition
import OmniPaxosBench.MultiPaxos.Util
import OmniPaxosBench.MultiPaxos.Acceptor
import OmniPaxosBench.MultiPaxos.ProxyLeader
import OmniPaxosBench.MultiPaxos.Leader
import OmniPaxosBench.MultiPaxos.SynodInvariants
import OmniPaxosBench.MultiPaxos.SynodAgreement
import OmniPaxosBench.MultiPaxos.LeaderMoves
import OmniPaxosBench.MultiPaxos.LeaderDiscipline
import OmniPaxosBench.MultiPaxos.Agreement
import OmniPaxosBench.MultiPaxos.LeaderCustody
import OmniPaxosBench.MultiPaxos.LeaderCampaigns
import OmniPaxosBench.MultiPaxos.Cluster
import OmniPaxosBench.MultiPaxos.Wire
import OmniPaxosBench.MultiPaxos.ReplicaDuties
import OmniPaxosBench.MultiPaxos.Replication
import OmniPaxosBench.MultiPaxos.Quiescence
import OmniPaxosBench.MultiPaxos.BatcherResend
import OmniPaxosBench.MultiPaxos.ParticipantElection
import OmniPaxosBench.LeaderElection.BallotElection
import OmniPaxosBench.LeaderElection.BallotQuorum
import OmniPaxosBench.LeaderElection.BallotConvergence
import OmniPaxosBench.LeaderElection.ViewSafety
import OmniPaxosBench.LeaderElection.ViewShutdown
import OmniPaxosBench.LeaderElection.ViewTermination
import OmniPaxosBench.LeaderElection.MultiPaxosElection
import OmniPaxosBench.OmniPaxos.PaxosComp
import OmniPaxosBench.OmniPaxos.Reassembly
import OmniPaxosBench.OmniPaxos.Node
import OmniPaxosBench.OmniPaxos.HoldBack
import OmniPaxosBench.OmniPaxos.Wire
import OmniPaxosBench.OmniPaxos.Conservation
import OmniPaxosBench.OmniPaxos.StopRuns
import OmniPaxosBench.OmniPaxos.SegmentRetry
import OmniPaxosBench.Storage.Faults
import OmniPaxosBench.Shared.Linearizability
import OmniPaxosBench.Shared.Graphs
import OmniPaxosBench.Shared.ShortestPaths
import OmniPaxosBench.Experiment.ControlWire
import OmniPaxosBench.Raft.ReconfigurationState
import OmniPaxosBench.Raft.Wire
import OmniPaxosBench.PartitionRecovery
import OmniPaxosBench.Experiment.Master
import OmniPaxosBench.Experiment.ClientParams
import OmniPaxosBench.Experiment.NewConfiguration
import OmniPaxosBench.Experiment.Preparation
import OmniPaxosBench.Experiment.BaseClient
import OmniPaxosBench.Experiment.Client
import OmniPaxosBench.Experiment.ReconfigClient
import OmniPaxosBench.Experiment.Preload
import OmniPaxosBench.Experiment.Counting
import OmniPaxosBench.Experiment.Finishing
import OmniPaxosBench.Experiment.Stopping
import OmniPaxosBench.Experiment.PartitionElection
import OmniPaxosBench.Experiment.PartitionLivelock
import OmniPaxosBench.Suite.BenchmarkRuns
