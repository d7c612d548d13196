import OmniPaxosBench.OmniPaxos.Messages
import Mathlib.Data.Finset.Card

/-! # Raft: the replica

`RaftReplica` of the code: a component around a node of the raft crate, which it drives by two periodic
timers, and the state of the one reconfiguration it takes part in.

The crate is a parameter of the model, `RaftCrate`: the operations that the replica calls, with the log of
the node and how much of it is committed. The storage that the replica writes to is the one of the node.
The random choices of a reconfiguration are given with the event. -/

namespace OmniPaxosBench.Raft

open OmniPaxosBench.OmniPaxos (Data Proposal ReconfigurationProposal)

/-! ### The raft crate -/

inductive EntryType
  | entryNormal
  | entryConfChange
  deriving DecidableEq, Repr

structure Entry where
  entryType : EntryType
  index : ℕ
  term : ℕ
  data : Data
  deriving DecidableEq, Repr

inductive ConfChangeType
  | addNode
  | removeNode
  | addLearnerNode
  | beginMembershipChange
  | finalizeMembershipChange
  deriving DecidableEq, Repr

structure Configuration where
  voters : List ℕ
  learners : List ℕ
  deriving DecidableEq, Repr

def Configuration.Contains (c : Configuration) (id : ℕ) : Prop := id ∈ c.voters ∨ id ∈ c.learners

instance (c : Configuration) (id : ℕ) : Decidable (c.Contains id) := inferInstanceAs (Decidable (_ ∨ _))

structure ConfChange where
  changeType : ConfChangeType
  configuration : Configuration
  startIndex : ℕ
  deriving DecidableEq, Repr

inductive StateRole
  | follower
  | candidate
  | leader
  | preCandidate
  deriving DecidableEq, Repr

structure Ready (M : Type) where
  messages : List M
  entries : List Entry
  committedEntries : Option (List Entry)

/-- What the replica uses of the raft crate; `none` is an error. -/
structure RaftCrate where
  RawNode : Type
  Message : Type
  /-- The addressee of a message. -/
  receiver : Message → ℕ
  id : RawNode → ℕ
  leaderId : RawNode → ℕ
  leadTransferee : RawNode → Option ℕ
  term : RawNode → ℕ
  state : RawNode → StateRole
  configuration : RawNode → Configuration
  isInMembershipChange : RawNode → Bool
  allEntries : RawNode → List Entry
  /-- How many entries of the log are committed. -/
  committed : RawNode → ℕ
  mergeFromBytes : Data → Option ConfChange
  tick : RawNode → RawNode
  campaign : RawNode → RawNode
  step : RawNode → Message → RawNode
  /-- The conflict of a message with the log: how many entries of the log stay, and those that replace the
  others. -/
  conflict : RawNode → Message → Option (ℕ × List Entry)
  propose : RawNode → Data → Option RawNode
  proposeMembershipChange : RawNode → Configuration → Option RawNode
  hasReady : RawNode → Bool
  ready : RawNode → Ready Message × RawNode
  advance : RawNode → Ready Message → RawNode
  beginMembershipChange : RawNode → ConfChange → Option RawNode
  finalizeMembershipChange : RawNode → ConfChange → Option RawNode
  appendLog : RawNode → List Entry → Option RawNode
  setConfState : RawNode → Configuration → RawNode
  setHardState : RawNode → ℕ → ℕ → Option RawNode

/-- `expect`. -/
def expect {α : Type} (x : Option α) (msg : String) : Except String α :=
  match x with
  | some a => .ok a
  | none => .error msg

/-! ### The replica -/

inductive ReconfigurationState
  | none
  | pending
  | finished
  | removed
  deriving DecidableEq, Repr

inductive ReplicaState
  | election
  | running
  deriving DecidableEq, Repr

structure RaftReplica (K : RaftCrate) where
  state : ReplicaState
  rawRaft : K.RawNode
  /-- The two periodic timers are scheduled. -/
  timers : Bool
  reconfigState : ReconfigurationState
  currentLeader : ℕ
  numPeers : ℕ
  stopped : Bool
  stoppedPeers : Finset ℕ
  hbProposals : List Proposal
  hbReconfig : Option ReconfigurationProposal
  stopAsk : Bool
  /-- How many timers of `try_campaign_leader` are scheduled. -/
  campaigns : ℕ

inductive ReplicaOut (K : RaftCrate)
  | rawRaftMsg (m : K.Message)
  | proposalResponse (data : Data) (latestLeader leaderRound : ℕ)
  | reconfigurationResponse (latestLeader leaderRound : ℕ) (currentConfiguration : List ℕ)
  | sendStop (pid : ℕ)
  | leader (notifyClient : Bool) (pid term : ℕ)
  | removed
  | forwardReconfig (leader : ℕ) (rp : ReconfigurationProposal)
  | replyStop

inductive ReplicaEvent (K : RaftCrate)
  | start
  | propose (p : Proposal)
  | proposeReconfiguration (rp : ReconfigurationProposal) (rnds : List ℕ)
  | stop
  | rawRaftMsg (m : K.Message)
  | stopMsg (fromPid : ℕ)
  | tick (rnds : List ℕ)
  | onReady
  | tryCampaignLeader

namespace RaftReplica

variable {K : RaftCrate}

/-- The state and the messages after a part of a handler, or a panic. -/
abbrev Result (K : RaftCrate) := Except String (RaftReplica K × List (ReplicaOut K))

/-- `RaftReplica::with`. -/
def new (rawRaft : K.RawNode) (numPeers : ℕ) : RaftReplica K where
  state := .election
  rawRaft := rawRaft
  timers := false
  reconfigState := .none
  currentLeader := 0
  numPeers := numPeers
  stopped := false
  stoppedPeers := ∅
  hbProposals := []
  hbReconfig := none
  stopAsk := false
  campaigns := 0

variable (c : RaftReplica K)

/-- The panic of `propose`. -/
def failedToPropose (leader : ℕ) : Option ℕ → String
  | some leadTransferee => s!"Failed to propose. leader: {leader}, lead_transferee: Some({leadTransferee})"
  | none => s!"Failed to propose. leader: {leader}, lead_transferee: None"

def propose (proposal : Proposal) : Except String (RaftReplica K) := do
  if K.leaderId c.rawRaft = 0 then return { c with hbProposals := c.hbProposals ++ [proposal] }
  else
    let rawRaft ← expect (K.propose c.rawRaft proposal.data)
      (failedToPropose (K.leaderId c.rawRaft) (K.leadTransferee c.rawRaft))
    return { c with rawRaft := rawRaft }

def proposeReconfiguration (rp : ReconfigurationProposal) (rnds : List ℕ) : Result K :=
  if c.reconfigState = .none then
    let leaderPid := K.leaderId c.rawRaft
    if leaderPid = 0 then .ok ({ c with hbReconfig := some rp }, [])
    else if leaderPid = K.id c.rawRaft then do
      let currentConfig := (K.configuration c.rawRaft).voters
      let newVoters ← expect (rp.getNewConfiguration leaderPid currentConfig rnds)
        "UniformSampler::sample_single: low >= high"
      let rawRaft ← expect (K.proposeMembershipChange c.rawRaft ⟨newVoters, []⟩)
        "Failed to propose joint consensus reconfiguration"
      return ({ c with rawRaft := rawRaft, reconfigState := .pending }, [])
    else .ok (c, [.forwardReconfig leaderPid rp])
  else .ok (c, [])

/-- The reconfiguration that was held back is proposed. -/
def proposeHeldBackReconfig (rnds : List ℕ) : Result K :=
  match c.hbReconfig with
  | some rp => { c with hbReconfig := none }.proposeReconfiguration rp rnds
  | none => .ok (c, [])

/-- A leader that is new to the supervisor. -/
def tellLeader (leader : ℕ) : RaftReplica K × List (ReplicaOut K) :=
  if leader ≠ c.currentLeader then
    ({ c with currentLeader := leader, state := .running },
      [.leader (c.state = .election) leader (K.term c.rawRaft)])
  else (c, [])

def tick (rnds : List ℕ) : Result K := do
  let c := { c with rawRaft := K.tick c.rawRaft }
  let leader := K.leaderId c.rawRaft
  if leader = 0 then return (c, [])
  let (c, outs) ← c.proposeHeldBackReconfig rnds
  let c ← c.hbProposals.foldlM propose { c with hbProposals := [] }
  let (c, outs') := c.tellLeader leader
  return (c, outs ++ outs')

/-! ### Committed entries -/

/-- The membership change is begun. -/
def beginReconfig (cc : ConfChange) : Result K := do
  let rawRaft ← expect (K.beginMembershipChange c.rawRaft cc) "Failed to begin reconfiguration"
  if K.isInMembershipChange rawRaft then return ({ c with rawRaft := rawRaft, reconfigState := .pending }, [])
  else throw "assertion failed: self.raw_raft.raft.is_in_membership_change()"

/-- The membership change is finalised; the client gets its answer. -/
def finalizeReconfig (cc : ConfChange) : Result K := do
  let rawRaft ← expect (K.finalizeMembershipChange c.rawRaft cc) "Failed to finalize reconfiguration"
  let c := { c with rawRaft := rawRaft }
  let currentConf := K.configuration rawRaft
  let leader := K.leaderId rawRaft
  let resp : ReplicaOut K := .reconfigurationResponse leader (K.term rawRaft) currentConf.voters
  if K.id rawRaft ∈ currentConf.voters then
    let c := { c with reconfigState := .finished, rawRaft := K.setConfState rawRaft currentConf }
    if leader ∈ currentConf.voters then return (c, [resp])
    else return ({ c with state := .election, campaigns := c.campaigns + 1 }, [resp])
  else if currentConf.Contains (K.id rawRaft) then
    throw "assertion failed: !current_conf.contains(self.raw_raft.raft.id)"
  else
    return ({ c with
      reconfigState := .removed
      timers := false
      rawRaft := K.setConfState rawRaft currentConf }, [.removed, resp])

/-- One committed entry. -/
def applyEntry (entry : Entry) : Result K :=
  if entry.data = [] then .ok (c, [])
  else
    match entry.entryType with
    | .entryConfChange =>
      if c.reconfigState = .removed ∨ c.reconfigState = .finished then .ok (c, [])
      else do
        let cc ← expect (K.mergeFromBytes entry.data) "called `Result::unwrap()` on an `Err` value"
        match cc.changeType with
        | .beginMembershipChange => c.beginReconfig cc
        | .finalizeMembershipChange => c.finalizeReconfig cc
        | .addNode | .removeNode | .addLearnerNode => throw "not implemented"
    | .entryNormal =>
      if K.state c.rawRaft = .leader then
        .ok (c, [.proposalResponse entry.data (K.id c.rawRaft) (K.term c.rawRaft)])
      else .ok (c, [])

/-- The loop over the committed entries. -/
def applyEntries : List Entry → RaftReplica K → Result K
  | [], c => .ok (c, [])
  | entry :: entries, c => do
    let (c, outs) ← c.applyEntry entry
    let (c, outs') ← applyEntries entries c
    return (c, outs ++ outs')

/-- The committed entries of a `Ready`, with the hard state of the last one. -/
def applyCommitted (committedEntries : List Entry) : Result K := do
  let (c, outs) ← applyEntries committedEntries c
  match committedEntries.getLast? with
  | some last =>
    let rawRaft ← expect (K.setHardState c.rawRaft last.index last.term) "Failed to set hardstate"
    return ({ c with rawRaft := rawRaft }, outs)
  | none => return (c, outs)

def onReady : Result K := do
  if K.hasReady c.rawRaft then
    let (ready, rawRaft) := K.ready c.rawRaft
    let rawRaft ← expect (K.appendLog rawRaft ready.entries) "Failed to append entries to raft storage log"
    let c := { c with rawRaft := rawRaft }
    let (c, outs) ← c.applyCommitted (ready.committedEntries.getD [])
    -- the messages and the committed entries have been taken out of the `Ready`
    let advanced := K.advance c.rawRaft { ready with messages := [], committedEntries := none }
    return ({ c with rawRaft := advanced }, ready.messages.map .rawRaftMsg ++ outs)
  else return (c, [])

/-! ### The handlers -/

def tryCampaignLeader : RaftReplica K :=
  if K.leaderId c.rawRaft = 0 ∧ c.state = .election then { c with rawRaft := K.campaign c.rawRaft } else c

def handleStop : RaftReplica K × List (ReplicaOut K) :=
  let sendStop : ReplicaOut K := .sendStop (K.id c.rawRaft)
  let c := { c with timers := false, stopped := true }
  if c.stoppedPeers.card = c.numPeers then (c, [sendStop, .replyStop]) else ({ c with stopAsk := true }, [sendStop])

def handleStopMsg (fromPid : ℕ) : Result K :=
  if fromPid ∈ c.stoppedPeers then .error s!"Got duplicate stop from {fromPid}"
  else
    let c := { c with stoppedPeers := insert fromPid c.stoppedPeers }
    if c.stoppedPeers.card = c.numPeers ∧ c.stopped = true then
      if c.stopAsk then .ok ({ c with stopAsk := false }, [.replyStop]) else .error "No stop ask"
    else .ok (c, [])

def handleRawRaftMsg (m : K.Message) : RaftReplica K :=
  if c.stopped = false ∧ c.reconfigState ≠ .removed then { c with rawRaft := K.step c.rawRaft m } else c

/-- One event; `none` if it cannot happen. -/
def handle : ReplicaEvent K → Option (Result K)
  | .start => some (.ok ({ c with timers := true }, []))
  | .propose p => some ((c.propose p).map fun c => (c, []))
  | .proposeReconfiguration rp rnds => some (c.proposeReconfiguration rp rnds)
  | .stop => some (.ok c.handleStop)
  | .rawRaftMsg m => some (.ok (c.handleRawRaftMsg m, []))
  | .stopMsg fromPid => some (c.handleStopMsg fromPid)
  | .tick rnds => if c.timers then some (c.tick rnds) else none
  | .onReady => if c.timers then some c.onReady else none
  | .tryCampaignLeader =>
    if c.campaigns = 0 then none else some (.ok ({ c with campaigns := c.campaigns - 1 }.tryCampaignLeader, []))

end RaftReplica

end OmniPaxosBench.Raft
