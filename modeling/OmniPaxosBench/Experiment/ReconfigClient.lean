import OmniPaxosBench.Experiment.BaseClient

/-! # The client of the reconfiguration experiment

`ReconfigurationClient` of the code. In the setup it counts the answers to the proposals that the nodes
have preloaded. `Run` starts the experiment: a fixed number of proposals, and the reconfiguration when
half of them have been answered. The experiment ends when all of them and the reconfiguration have been
answered. -/

namespace OmniPaxosBench.Experiment

open OmniPaxosBench.Lib OmniPaxosBench.OmniPaxos

/-- The reconfiguration is proposed after this part of the proposals. -/
def reconfigurationWarmupFactor : ℕ := 2

structure ReconfigurationClient extends BaseClient where
  numProposals : ℕ
  maxProposalId : ℕ
  leaderElectionLatch : ℕ
  windows : List ℕ
  numPreloadedProposals : ℕ
  remPreloadedProposals : ℕ

namespace ReconfigurationClient

/-- The state and the messages after a handler, or a panic. -/
abbrev Result := Except String (ReconfigurationClient × List ClientOut)

/-- `ReconfigurationClient::with`; both latches are fresh ones of `1`. -/
def new (build : Build) (initialConfig : List ℕ) (numProposals numConcurrentProposals : ℕ) (nodes : List ℕ)
    (reconfig : Option (ReconfigurationPolicy × List ℕ)) (preloadedLogSize : ℕ) :
    ReconfigurationClient where
  toBaseClient := .new build initialConfig numConcurrentProposals nodes reconfig preloadedLogSize 1
  numProposals := numProposals
  maxProposalId := numProposals + preloadedLogSize
  leaderElectionLatch := 1
  windows := []
  numPreloadedProposals := preloadedLogSize
  remPreloadedProposals := preloadedLogSize

variable (c : ReconfigurationClient) (now : ℕ)

/-- A step of the common part. -/
def liftBase (r : BaseClient.Result) : Result := r.map fun (b, outs) => ({ c with toBaseClient := b }, outs)

def sendConcurrentProposals : Result :=
  c.liftBase (c.toBaseClient.sendConcurrentProposals now (some c.maxProposalId))

def handleNormalResponse (id : ℕ) (latency : Option ℕ) : Result :=
  let c := { c with responses := c.responses.insert id latency }
  let receivedCount := c.responses.len
  if receivedCount = c.numProposals then
    if c.reconfig = none then do
      return ({ c with toBaseClient := ← c.toBaseClient.cancelWindowTimer.finish }, [])
    else .ok (c, [])
  else if receivedCount = c.numProposals / reconfigurationWarmupFactor ∧ c.reconfig ≠ none then
    c.liftBase (c.toBaseClient.startReconfiguration now)
  else .ok (c, [])

def handleReconfigResponse (latestLeader leaderRound : ℕ) (currentConfiguration : List ℕ) : Result :=
  match c.pendingProposals.lookup reconfigId with
  | none => .ok (c, [])
  | some proposalMeta =>
    let b := { c.toBaseClient.removePending reconfigId proposalMeta with reconfigEndTs := some now }
    if c.responses.len = c.numProposals then do return ({ c with toBaseClient := ← b.finish }, [])
    else
      let b := { b with reconfig := none, currentConfig := currentConfiguration }
      { c with toBaseClient := b.learnReconfigLeader now latestLeader leaderRound }.sendConcurrentProposals now

def proposalTimeout (id : ℕ) : Result :=
  if id ∈ c.responses then .ok (c, [])
  else do
    let c := { c with numTimedOut := c.numTimedOut + 1 }
    let out ← c.proposeNormal .retry id
    return ({ c with timers := c.timers.schedule (.proposalTimeout id) }, [out])

/-! ### The handlers -/

/-- `LocalClientMessage::Run`. -/
def handleRun : Result := do
  let c := { c with state := .running }
  if c.currentLeader = 0 then throw "assertion failed: current_leader is 0"
  { c with
    windowTimer := some (c.timers.handle .window)
    timers := c.timers.schedule .window }.sendConcurrentProposals now

/-- An answer to a preloaded proposal during the setup. The latch may be set already. -/
def handlePreloadedResp (latestLeader leaderRound : ℕ) : Result := do
  let c := { c with
    currentLeader := latestLeader
    leaderRound := leaderRound
    remPreloadedProposals := ← c.build.sub 64 c.remPreloadedProposals 1 }
  if c.remPreloadedProposals = 0 then return ({ c with leaderElectionLatch := c.leaderElectionLatch - 1 }, [])
  else return (c, [])

variable {c} in
/-- A preloaded answer that is counted changes the leader, the counter and perhaps the latch. -/
theorem handlePreloadedResp_of_sub {latestLeader leaderRound n : ℕ}
    (h : c.build.sub 64 c.remPreloadedProposals 1 = .ok n) : c.handlePreloadedResp latestLeader leaderRound =
      .ok ({ c with
        currentLeader := latestLeader
        leaderRound := leaderRound
        remPreloadedProposals := n
        leaderElectionLatch := if n = 0 then c.leaderElectionLatch - 1 else c.leaderElectionLatch }, []) := by
  unfold handlePreloadedResp
  rw [h]
  dsimp only [bind, Except.bind]
  split_ifs
  · rfl
  · rfl

/-- A `ProposalResp`. -/
def handleProposalResp (data : Data) (latestLeader leaderRound : ℕ) : Result := do
  if c.state = .finished then return (c, [])
  let id ← idOf data
  match c.pendingProposals.lookup id with
  | some proposalMeta =>
    let latency := proposalMeta.startTime.map (now - ·)
    let b := (c.toBaseClient.removePending id proposalMeta).learnLeader now latestLeader leaderRound
    let (c, outs) ← { c with toBaseClient := b }.handleNormalResponse now id latency
    let (c, outs') ← c.sendConcurrentProposals now
    return (c, outs ++ outs')
  | none =>
    if id ≤ c.numPreloadedProposals ∧ c.state = .setup then c.handlePreloadedResp latestLeader leaderRound
    else return (c, [])

variable {c now} in
/-- An answer that no pending proposal waits for. -/
theorem handleProposalResp_of_none {data : Data} {id : ℕ} (latestLeader leaderRound : ℕ)
    (hfin : c.state ≠ .finished) (hid : idOf data = .ok id) (hnone : c.pendingProposals.lookup id = none) :
    c.handleProposalResp now data latestLeader leaderRound =
      if id ≤ c.numPreloadedProposals ∧ c.state = .setup then c.handlePreloadedResp latestLeader leaderRound
      else .ok (c, []) := by
  unfold handleProposalResp
  rw [if_neg hfin, hid]
  dsimp only [bind, Except.bind]
  rw [hnone]
  rfl

variable {c now} in
/-- The answer to a pending proposal. -/
theorem handleProposalResp_of_some {data : Data} {id : ℕ} {proposalMeta : ProposalMetaData}
    (latestLeader leaderRound : ℕ) (hfin : c.state ≠ .finished) (hid : idOf data = .ok id)
    (hmeta : c.pendingProposals.lookup id = some proposalMeta) :
    c.handleProposalResp now data latestLeader leaderRound =
      ({ c with
        toBaseClient := (c.toBaseClient.removePending id proposalMeta).learnLeader now latestLeader leaderRound
        }.handleNormalResponse now id (proposalMeta.startTime.map (now - ·)) >>= fun r =>
          (r.1.sendConcurrentProposals now).map fun r' => (r'.1, r.2 ++ r'.2)) := by
  unfold handleProposalResp
  rw [if_neg hfin, hid]
  dsimp only [bind, Except.bind]
  rw [hmeta]
  rfl

/-- A proposal that a node has sent back. -/
def handleProposal (data : Data) : Result := do
  let id ← idOf data
  if id ∉ c.responses then
    let c := { c with numRetried := c.numRetried + 1 }
    return (c, [← c.proposeNormal .retry id])
  else return (c, [])

/-- A `Leader` message. -/
def handleLeader (pid round : ℕ) : Result :=
  if c.state = .setup then
    if pid = 0 then .error "assertion failed: pid > 0"
    else .ok ({ c with currentLeader := pid, leaderRound := round }, [])
  else if c.state = .running ∧ c.leaderRound < round then
    .ok ({ c with toBaseClient := c.toBaseClient.changeLeader now pid round }, [])
  else .ok (c, [])

def receiveMessage : AtomicBroadcastMsg → Result
  | .leader pid round => c.handleLeader now pid round
  | .reconfigurationResp latestLeader leaderRound currentConfiguration =>
    c.handleReconfigResponse now latestLeader leaderRound currentConfiguration
  | .proposalResp data latestLeader leaderRound => c.handleProposalResp now data latestLeader leaderRound
  | .proposal p => c.handleProposal p.data
  | .reconfigurationProposal _ => .ok (c, [])

def replyStopAsk : Result := do
  let (b, outs) ← c.toBaseClient.replyStopAsk 0 ⟨0, c.windows⟩ 0
  return ({ c with toBaseClient := b, windows := [] }, outs)

/-- `StopMsg::Peer`; a pid that is not known is a panic. -/
def handlePeerStop (pid : ℕ) : Result :=
  if pid ∈ c.nodes then
    let c := { c with nodes := c.nodes.erase pid }
    if c.nodes = [] then c.replyStopAsk else .ok (c, [])
  else .error s!"Got stop from unknown pid {pid}"

/-- The closure of a timer runs; the others are not scheduled by this client. -/
def runCallback : ClientCallback → Option Result
  | .proposalTimeout id => some (c.proposalTimeout id)
  | .reconfigTimeout => some (c.liftBase c.toBaseClient.reconfigTimeout)
  | .window => some (.ok ({ c with windows := c.windows ++ [c.responses.len] }, []))
  | .kill => some (if c.nodes = [] then .ok (c, []) else c.replyStopAsk)
  | .experimentTimeout | .warmupDone | .recoverPartition | .disconnectNonLagging _ _ _ => none

/-- A timer fires; the periodic one stays. -/
def handleTimeout (id : ℕ) : Option Result :=
  (c.timers.callbackOf id).bind fun cb =>
    let c := if cb = .window then c else { c with timers := c.timers.remove id }
    c.runCallback cb

/-- One event; `none` if it cannot happen. -/
def handle : ClientEvent → Option Result
  | .run => some (c.handleRun now)
  | .stop => some (.ok ({ c with toBaseClient := c.toBaseClient.handleStop.1 }, c.toBaseClient.handleStop.2))
  | .message m => some (c.receiveMessage now m)
  | .peerStop pid => some (c.handlePeerStop pid)
  | .timeout id => c.handleTimeout id

end ReconfigurationClient

end OmniPaxosBench.Experiment
