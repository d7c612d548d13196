import OmniPaxosBench.Experiment.BaseClient
import OmniPaxosBench.Experiment.Master

/-! # The benchmark client

`Client` of the code. With the first leader it starts a warm-up; `Run` starts the experiment, in which the
network may be partitioned, and a timer ends it. Proposals answered during the warm-up are only
counted, those of the experiment are kept with their latencies. -/

namespace OmniPaxosBench.Experiment

open OmniPaxosBench.Lib OmniPaxosBench.OmniPaxos

structure Client extends BaseClient where
  networkScenario : NetworkScenario
  warmupLatch : ℕ
  warmupDecided : ℕ
  windowedResult : WindowedResult
  partitionTimer : Option (Timer ClientCallback)
  longestDownTime : Option ℕ
  partitionTs : Option ℕ
  proposalIdWhenPartitioned : Option ℕ

namespace Client

/-- The state and the messages after a handler, or a panic. -/
abbrev Result := Except String (Client × List ClientOut)

/-- `Client::with`; both latches are fresh ones of `1`. -/
def new (build : Build) (initialConfig : List ℕ) (numConcurrentProposals : ℕ) (nodes : List ℕ)
    (networkScenario : NetworkScenario) (reconfig : Option (ReconfigurationPolicy × List ℕ)) : Client where
  toBaseClient := .new build initialConfig numConcurrentProposals nodes reconfig 0 1
  networkScenario := networkScenario
  warmupLatch := 1
  warmupDecided := 0
  windowedResult := {}
  partitionTimer := none
  longestDownTime := none
  partitionTs := none
  proposalIdWhenPartitioned := none

variable (c : Client) (now : ℕ)

/-- A step of the common part. -/
def liftBase (r : BaseClient.Result) : Result := r.map fun (b, outs) => ({ c with toBaseClient := b }, outs)

def sendConcurrentProposals : Result := c.liftBase (c.toBaseClient.sendConcurrentProposals now none)

def handleNormalResponse (id : ℕ) (latency : Option ℕ) : Client :=
  match c.state with
  | .running => { c with responses := c.responses.insert id latency }
  | .warmUp => { c with warmupDecided := c.warmupDecided + 1 }
  | .setup | .pendingReconfiguration | .finished => c

def handleReconfigResponse (latestLeader leaderRound : ℕ) (currentConfiguration : List ℕ) : Result :=
  match c.pendingProposals.lookup reconfigId with
  | none => .ok (c, [])
  | some proposalMeta =>
    let b := { c.toBaseClient.removePending reconfigId proposalMeta with reconfigEndTs := some now }
    match c.state with
    | .pendingReconfiguration => do return ({ c with toBaseClient := ← b.finish }, [])
    | .running =>
      let b := { b with reconfig := none, currentConfig := currentConfiguration }
      c.liftBase ((b.learnReconfigLeader now latestLeader leaderRound).sendConcurrentProposals now none)
    | .setup | .warmUp | .finished =>
      .error "Unexpected experiment state when getting reconfig response"

def proposalTimeout (id : ℕ) : Result :=
  if id ∈ c.responses then .ok (c, [])
  else do
    let c := { c with numTimedOut := c.numTimedOut + 1 }
    if c.state = .running then
      let out ← c.proposeNormal .retry id
      return ({ c with timers := c.timers.schedule (.proposalTimeout id) }, [out])
    else return (c, [])

/-! ### The simulated partition -/

def schedulePartitionRecovery : Client :=
  { c with
    partitionTimer := some (c.timers.handle .recoverPartition)
    timers := c.timers.schedule .recoverPartition }

/-- The closure of `schedule_partition_recovery` with `recover_partition`. -/
def recoverPartition : Client × List ClientOut :=
  let c := match c.partitionTimer with
    | some timer => { c with partitionTimer := none, timers := c.timers.cancel timer }
    | none => c
  (c, c.nodes.map fun pid => .partitioningExp pid .recoverPeers)

/-- The closure of the constrained-election scenario. -/
def disconnectNonLagging (followers : List ℕ) (laggingFollower leader : ℕ) : Result := do
  let nonLaggingFollowers := followers.filter (· ≠ laggingFollower)
  let outs ← nonLaggingFollowers.mapM fun nonLagging =>
    let peers := c.nodes.filter fun p => p ≠ laggingFollower ∧ p ≠ nonLagging
    if nonLagging ∈ c.nodes then
      Except.ok (ClientOut.partitioningExp nonLagging (.disconnectPeers peers false none))
    else .error "No node ap"
  return ({ c with proposalIdWhenPartitioned := some c.latestProposalId },
    outs ++ [.partitioningExp leader (.disconnectPeers nonLaggingFollowers false (some laggingFollower))])

/-- `create_partition`. -/
def createPartition : Result :=
  if c.currentLeader = 0 then .error "assertion failed: current_leader is 0"
  else if c.currentLeader ∉ c.nodes then .error "No leader"
  else
    let leader := c.currentLeader
    let followers := c.nodes.filter (· ≠ leader)
    let c := { c with partitionTs := some now }
    match c.networkScenario, followers with
    | .fullyConnected, _ => .ok (c, [])
    | .periodicFull _, _ => .error "not implemented"
    | _, [] => .error "called `Option::unwrap()` on a `None` value"
    | .quorumLoss _, fullyConnectedNode :: _ =>
      let rest := c.nodes.filter (· ≠ fullyConnectedNode)
      .ok ({ c with proposalIdWhenPartitioned := some c.latestProposalId }.schedulePartitionRecovery,
        rest.map fun pid => .partitioningExp pid (.disconnectPeers rest false none))
    | .constrainedElection _, laggingFollower :: _ =>
      let c := { c with
        timers := c.timers.schedule (.disconnectNonLagging followers laggingFollower leader) }
      .ok (c.schedulePartitionRecovery,
        [.partitioningExp laggingFollower (.disconnectPeers [leader] false none),
          .partitioningExp leader (.disconnectPeers [] false (some laggingFollower))])
    | .chained _, disconnectedFollower :: _ =>
      .ok ({ c with proposalIdWhenPartitioned := some c.latestProposalId }.schedulePartitionRecovery,
        [.partitioningExp disconnectedFollower (.disconnectPeers [leader] false none),
          .partitioningExp leader (.disconnectPeers [disconnectedFollower] false none)])

/-- The down time that is recorded when the experiment ends before the protocol has recovered. -/
def recordDownTime : Except String Client :=
  if c.networkScenario ≠ .fullyConnected ∧ c.longestDownTime = none then
    match c.partitionTs with
    | some ts => .ok { c with partitionTs := none, longestDownTime := some (now - ts) }
    | none => .error "called `Option::unwrap()` on a `None` value"
  else .ok c

/-- `experiment_timeout`. -/
def experimentTimeout : Result :=
  if c.reconfig = none then do
    let c := match c.partitionTimer with
      | some timer => { c with partitionTimer := none, timers := c.timers.cancel timer }
      | none => c
    let c ← c.recordDownTime now
    let b ← c.toBaseClient.finish
    return ({ c with toBaseClient := b.cancelWindowTimer }, [])
  else .ok ({ c with state := .pendingReconfiguration }, [])

/-! ### The handlers -/

/-- `start_warmup`. -/
def startWarmup : Result := do
  let (c, outs) ← { c with state := .warmUp }.sendConcurrentProposals now
  let c := { c with timers := c.timers.schedule .warmupDone }
  if c.reconfig = none then return (c, outs)
  else return ({ c with
    windowTimer := some (c.timers.handle .window)
    timers := c.timers.schedule .window }, outs)

/-- `LocalClientMessage::Run`. -/
def handleRun : Result := do
  let c := { c with
    state := .running
    windowedResult := { c.windowedResult with numWarmupWindows := c.windowedResult.windows.length } }
  if c.currentLeader = 0 then throw "assertion failed: current_leader is 0"
  let (c, outs) ← c.createPartition now
  let c := { c with
    leaderChanges := c.leaderChanges ++ [(now, c.currentLeader, c.leaderRound)]
    timers := c.timers.schedule .experimentTimeout }
  if c.reconfig = none then return (c, outs)
  else
    let (b, outs') ← c.toBaseClient.startReconfiguration now
    return ({ c with toBaseClient := b }, outs ++ outs')

/-- The down time, once the first proposal after the partition is answered. -/
def recordRecovery (id : ℕ) : Except String Client :=
  match c.proposalIdWhenPartitioned with
  | some partitionedId =>
    if c.longestDownTime = none ∧ c.networkScenario ≠ .fullyConnected ∧ partitionedId < id then
      match c.partitionTs with
      | some ts => .ok { c with longestDownTime := some (now - ts) }
      | none => .error "called `Option::unwrap()` on a `None` value"
    else .ok c
  | none => .ok c

/-- A `ProposalResp`. -/
def handleProposalResp (data : Data) (latestLeader leaderRound : ℕ) : Result := do
  if c.state = .finished then return (c, [])
  let id ← idOf data
  match c.pendingProposals.lookup id with
  | none => return (c, [])
  | some proposalMeta =>
    let c ← c.recordRecovery now id
    let latency := proposalMeta.startTime.map (now - ·)
    let b := (c.toBaseClient.removePending id proposalMeta).learnLeader now latestLeader leaderRound
    let c := { c with toBaseClient := b }.handleNormalResponse id latency
    if c.state = .running ∨ c.state = .warmUp then c.sendConcurrentProposals now
    else return (c, [])

/-- A proposal that a node has sent back. -/
def handleProposal (data : Data) : Result := do
  let id ← idOf data
  if id ∉ c.responses ∧ c.state = .running then
    let c := { c with numRetried := c.numRetried + 1 }
    return (c, [← c.proposeNormal .retry id])
  else return (c, [])

/-- A `Leader` message. -/
def handleLeader (pid round : ℕ) : Result :=
  if c.state = .setup then
    if pid = 0 then .error "assertion failed: pid > 0"
    else { c with currentLeader := pid, leaderRound := round }.startWarmup now
  else if (c.state = .running ∨ c.state = .warmUp) ∧ c.leaderRound < round then
    .ok ({ c with toBaseClient := c.toBaseClient.changeLeader now pid round }, [])
  else .ok (c, [])

def receiveMessage : AtomicBroadcastMsg → Result
  | .leader pid round => c.handleLeader now pid round
  | .reconfigurationResp latestLeader leaderRound currentConfiguration =>
    c.handleReconfigResponse now latestLeader leaderRound currentConfiguration
  | .proposalResp data latestLeader leaderRound => c.handleProposalResp now data latestLeader leaderRound
  | .proposal p => c.handleProposal p.data
  | .reconfigurationProposal _ => .ok (c, [])

def replyStopAsk : Result := do
  let (b, outs) ← c.toBaseClient.replyStopAsk c.warmupDecided c.windowedResult (c.longestDownTime.getD 0)
  return ({ c with toBaseClient := b, windowedResult := {} }, outs)

/-- `StopMsg::Peer`; a pid that is not known is ignored. -/
def handlePeerStop (pid : ℕ) : Result :=
  if pid ∈ c.nodes then
    let c := { c with nodes := c.nodes.erase pid }
    if c.nodes = [] then c.replyStopAsk else .ok (c, [])
  else .ok (c, [])

/-- The closure of a timer runs. -/
def runCallback : ClientCallback → Result
  | .proposalTimeout id => c.proposalTimeout id
  | .reconfigTimeout => c.liftBase c.toBaseClient.reconfigTimeout
  | .experimentTimeout => c.experimentTimeout now
  | .warmupDone =>
    if c.warmupLatch = 0 then .error "Failed to decrement warmup latch"
    else .ok ({ c with warmupLatch := c.warmupLatch - 1 }, [])
  | .window =>
    .ok ({ c with windowedResult := { c.windowedResult with
      windows := c.windowedResult.windows ++ [c.warmupDecided + c.responses.len] } }, [])
  | .recoverPartition => .ok c.recoverPartition
  | .disconnectNonLagging followers laggingFollower leader =>
    c.disconnectNonLagging followers laggingFollower leader
  | .kill => if c.nodes = [] then .ok (c, []) else c.replyStopAsk

/-- A timer fires; the periodic one stays. -/
def handleTimeout (id : ℕ) : Option Result :=
  (c.timers.callbackOf id).map fun cb =>
    let c := if cb = .window then c else { c with timers := c.timers.remove id }
    c.runCallback now cb

/-- One event; `none` if it cannot happen. -/
def handle : ClientEvent → Option Result
  | .run => some (c.handleRun now)
  | .stop => some (.ok ({ c with toBaseClient := c.toBaseClient.handleStop.1 }, c.toBaseClient.handleStop.2))
  | .message m => some (c.receiveMessage now m)
  | .peerStop pid => some (c.handlePeerStop pid)
  | .timeout id => c.handleTimeout now id

end Client

end OmniPaxosBench.Experiment
