import OmniPaxosBench.Lib.Checked
import OmniPaxosBench.Lib.HashMap
import OmniPaxosBench.Lib.Timers
import OmniPaxosBench.Lib.Wire
import OmniPaxosBench.Experiment.ControlWire
import OmniPaxosBench.OmniPaxos.Messages
import Mathlib.Data.Finset.Sort

/-! # What the two benchmark clients have in common

`Client` and `ReconfigurationClient` propose numbered proposals to the leader they know of, keep a number
of them in flight and propose again what times out. They share most of their fields and the functions
of this module.

Durations are left out: a timer may fire at any time after it was scheduled. The clock is read once for
each event, as `now`. The nodes are the pids of the map from pids to actor paths, in the order in which
that is traversed. -/

namespace OmniPaxosBench.Experiment

open OmniPaxosBench.Lib OmniPaxosBench.OmniPaxos

/-! ### Proposals -/

/-- The id under which the reconfiguration is kept among the pending proposals. -/
def reconfigId : ℕ := 0

/-- `create_raw_proposal`; the payload behind the id is empty. -/
def createRawProposal (id : ℕ) : Data := putU64 id

/-- `get_u64` of the data of a proposal; a panic if it is too short. -/
def idOf (data : Data) : Except String ℕ :=
  match getU64 data with
  | .ok (id, _) => .ok id
  | .error _ => .error "buffer underflow"

/-! ### States and messages -/

inductive ExperimentState
  | setup
  | warmUp
  | running
  | pendingReconfiguration
  | finished
  deriving DecidableEq, Repr

/-- The closures that the clients leave with the timer. -/
inductive ClientCallback
  | proposalTimeout (id : ℕ)
  | reconfigTimeout
  | experimentTimeout
  | warmupDone
  /-- The periodic one, which stays scheduled. -/
  | window
  | recoverPartition
  | disconnectNonLagging (followers : List ℕ) (laggingFollower leader : ℕ)
  | kill
  deriving DecidableEq, Repr

structure ProposalMetaData where
  startTime : Option ℕ
  timer : Timer ClientCallback
  deriving DecidableEq, Repr

structure WindowedResult where
  numWarmupWindows : ℕ := 0
  windows : List ℕ := []
  deriving DecidableEq, Repr

structure MetaResults where
  numDecided : ℕ
  numWarmupDecided : ℕ
  numTimedOut : ℕ
  numRetried : ℕ
  latencies : List ℕ
  leaderChanges : List (ℕ × ℕ × ℕ)
  windowedResults : WindowedResult
  reconfigTs : Option (ℕ × ℕ)
  longestDownTime : ℕ
  deriving DecidableEq, Repr

/-- Why a proposal is sent: for the first time, or again. The message is the same. -/
inductive Origin
  | fresh
  | retry
  deriving DecidableEq, Repr

inductive ClientOut
  | proposal (origin : Origin) (node id : ℕ)
  | reconfigurationProposal (node : ℕ) (rp : ReconfigurationProposal)
  | partitioningExp (node : ℕ) (m : PartitioningExpMsg)
  | stop (node : ℕ)
  | replyStop (results : MetaResults)
  deriving DecidableEq, Repr

inductive ClientEvent
  | run
  | stop
  | message (m : AtomicBroadcastMsg)
  | peerStop (pid : ℕ)
  | timeout (id : ℕ)
  deriving DecidableEq, Repr

/-- The fields that both clients have. The latch is the number it still has to count down. -/
structure BaseClient where
  /-- How the client is built; the benchmarks use release builds. -/
  build : Build
  numConcurrentProposals : ℕ
  nodes : List ℕ
  reconfig : Option (ReconfigurationPolicy × List ℕ)
  finishedLatch : ℕ
  latestProposalId : ℕ
  responses : HashMap ℕ (Option ℕ)
  pendingProposals : HashMap ℕ ProposalMetaData
  currentLeader : ℕ
  leaderRound : ℕ
  state : ExperimentState
  currentConfig : List ℕ
  numTimedOut : ℕ
  numRetried : ℕ
  /-- When, to which leader and in which round. -/
  leaderChanges : List (ℕ × ℕ × ℕ)
  /-- A `Stop` ask is waiting for its answer. -/
  stopAsk : Bool
  windowTimer : Option (Timer ClientCallback)
  reconfigStartTs : Option ℕ
  reconfigEndTs : Option ℕ
  timers : Timers ClientCallback

namespace BaseClient

/-- The state and the messages after a part of a handler, or a panic. -/
abbrev Result := Except String (BaseClient × List ClientOut)

/-- The fields as both constructors set them. -/
def new (build : Build) (initialConfig : List ℕ) (numConcurrentProposals : ℕ) (nodes : List ℕ)
    (reconfig : Option (ReconfigurationPolicy × List ℕ)) (latestProposalId finishedLatch : ℕ) :
    BaseClient where
  build := build
  numConcurrentProposals := numConcurrentProposals
  nodes := nodes
  reconfig := reconfig
  finishedLatch := finishedLatch
  latestProposalId := latestProposalId
  responses := ∅
  pendingProposals := ∅
  currentLeader := 0
  leaderRound := 0
  state := .setup
  currentConfig := initialConfig
  numTimedOut := 0
  numRetried := 0
  leaderChanges := []
  stopAsk := false
  windowTimer := none
  reconfigStartTs := none
  reconfigEndTs := none
  timers := .empty

variable (c : BaseClient) (now : ℕ)

/-- `propose_normal`: to the current leader, which has to be known. -/
def proposeNormal (origin : Origin) (id : ℕ) : Except String ClientOut :=
  if c.currentLeader ∈ c.nodes then .ok (.proposal origin c.currentLeader id)
  else .error "called `Option::unwrap()` on a `None` value"

/-- The node a reconfiguration is proposed to. -/
def reconfigurationNode : Except String ℕ :=
  if c.currentLeader ∈ c.nodes then .ok c.currentLeader
  else .error "No leader to propose reconfiguration to!"

def proposeReconfiguration (node : ℕ) : Except String ClientOut :=
  match c.reconfig with
  | some (policy, reconfig) => .ok (.reconfigurationProposal node ⟨policy, reconfig⟩)
  | none => .error "called `Option::unwrap()` on a `None` value"

/-- A timer is scheduled and kept with the pending proposal. -/
def addPending (id : ℕ) (startTime : Option ℕ) (cb : ClientCallback) : BaseClient :=
  { c with
    pendingProposals := c.pendingProposals.insert id ⟨startTime, c.timers.handle cb⟩
    timers := c.timers.schedule cb }

/-- The first proposal of the reconfiguration. -/
def startReconfiguration : Result := do
  let leader ← c.reconfigurationNode
  let out ← c.proposeReconfiguration leader
  let c := { c with reconfigStartTs := some now }
  return (c.addPending reconfigId none .reconfigTimeout, [out])

/-- The loop of `send_concurrent_proposals`. The time a proposal is sent is kept if there is only one at
a time. -/
def proposeEach : List ℕ → BaseClient → Result
  | [], c => .ok (c, [])
  | id :: ids, c => do
    let out ← c.proposeNormal .fresh id
    let startTime := if c.numConcurrentProposals = 1 then some now else none
    let (c, outs) ← proposeEach ids (c.addPending id startTime (.proposalTimeout id))
    return (c, out :: outs)

/-- The id up to which there is room in the flight. If the number of free places wraps around, so does the
sum with it. -/
def roomUpTo : Except String ℕ := do
  let numInflight := c.pendingProposals.len
  let availableN ← c.build.sub 64 c.numConcurrentProposals numInflight
  if numInflight ≤ c.numConcurrentProposals then return c.latestProposalId + availableN
  else return (c.latestProposalId + availableN) % 2 ^ 64

/-- `send_concurrent_proposals`: as many new proposals as there is room for, up to the last id if there is
one. -/
def sendConcurrentProposals (maxProposalId : Option ℕ) : Result :=
  if c.pendingProposals.len = c.numConcurrentProposals ∨ c.currentLeader = 0 then .ok (c, [])
  else do
    let i ← c.roomUpTo
    let last := match maxProposalId with
      | some maxId => min i maxId
      | none => i
    -- only the client with a last id returns here
    if maxProposalId.isSome ∧ last < c.latestProposalId + 1 then return (c, [])
    let ids := List.range' (c.latestProposalId + 1) (last - c.latestProposalId)
    let (c, outs) ← proposeEach now ids c
    return ({ c with latestProposalId := last }, outs)

/-- `countdown` of the latch that ends the experiment. -/
def finish : Except String BaseClient :=
  if c.finishedLatch = 0 then .error "Failed to countdown finished latch"
  else .ok { c with finishedLatch := c.finishedLatch - 1, state := .finished }

/-- A new leader that a message names, with its round. -/
def changeLeader (pid round : ℕ) : BaseClient :=
  let c := { c with leaderRound := round }
  if c.currentLeader ≠ pid then
    { c with currentLeader := pid, leaderChanges := c.leaderChanges ++ [(now, pid, round)] }
  else c

/-- The leader of a `ProposalResp`, if it is in the configuration and new. -/
def learnLeader (latestLeader leaderRound : ℕ) : BaseClient :=
  if latestLeader ∈ c.currentConfig ∧ c.leaderRound < leaderRound then
    c.changeLeader now latestLeader leaderRound
  else c

/-- The leader of a `ReconfigurationResp`. -/
def learnReconfigLeader (latestLeader leaderRound : ℕ) : BaseClient :=
  if 0 < latestLeader ∧ c.currentLeader ≠ latestLeader ∧ c.leaderRound < leaderRound then
    { c with
      currentLeader := latestLeader
      leaderRound := leaderRound
      leaderChanges := c.leaderChanges ++ [(now, latestLeader, leaderRound)] }
  else c

/-- A pending proposal is answered: it is removed, and its timer cancelled. -/
def removePending (id : ℕ) (proposalMeta : ProposalMetaData) : BaseClient :=
  { c with
    pendingProposals := c.pendingProposals.erase id
    timers := c.timers.cancel proposalMeta.timer }

def cancelWindowTimer : BaseClient :=
  match c.windowTimer with
  | some timer => { c with windowTimer := none, timers := c.timers.cancel timer }
  | none => c

def reconfigTimeout : Result := do
  let leader ← c.reconfigurationNode
  let out ← c.proposeReconfiguration leader
  match c.pendingProposals.lookup reconfigId with
  | none => .error "Could not find MetaData for Reconfiguration in pending_proposals"
  | some proposalMeta => return (c.addPending reconfigId proposalMeta.startTime .reconfigTimeout, [out])

/-! ### Stopping -/

/-- The handles of the pending proposals are cancelled. -/
def cancelPending : BaseClient :=
  { c with
    pendingProposals := ∅
    timers := c.timers.removeAll fun id => ∃ k ∈ c.pendingProposals.keys,
      (c.pendingProposals.lookup k).map (·.timer.id) = some id }

/-- `LocalClientMessage::Stop` with `send_stop`. -/
def handleStop : BaseClient × List ClientOut :=
  let c := c.cancelPending
  ({ c with timers := c.timers.schedule .kill, stopAsk := true }, c.nodes.map .stop)

/-- The latencies, in the order of the ids. -/
def latencies : List ℕ :=
  (c.responses.keys.sort (· ≤ ·)).filterMap fun id => (c.responses.lookup id).join

/-- `reply_stop_ask`; what only one of the clients has is given. -/
def replyStopAsk (numWarmupDecided : ℕ) (windowedResults : WindowedResult) (longestDownTime : ℕ) :
    Result :=
  if c.stopAsk then
    match c.reconfigStartTs, c.reconfigEndTs with
    | some _, none => .error "called `Option::unwrap()` on a `None` value"
    | startTs, endTs =>
      .ok ({ c with stopAsk := false, responses := ∅, leaderChanges := [] },
        [.replyStop
          { numDecided := c.responses.len
            numWarmupDecided := numWarmupDecided
            numTimedOut := c.numTimedOut
            numRetried := c.numRetried
            latencies := c.latencies
            leaderChanges := c.leaderChanges
            windowedResults := windowedResults
            reconfigTs := startTs.bind fun s => endTs.map (s, ·)
            longestDownTime := longestDownTime }])
  else .error "called `Option::unwrap()` on a `None` value"

end BaseClient

end OmniPaxosBench.Experiment
