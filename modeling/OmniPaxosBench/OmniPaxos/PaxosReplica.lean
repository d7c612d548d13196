import OmniPaxosBench.OmniPaxos.Messages

/-! # The replica of a configuration

`PaxosReplica` runs the Paxos of one configuration: it takes proposals from its supervisor, tells it of
leaders, of proposals that come too late and of the end of the configuration, and answers the clients.
The Paxos itself is that of a library, `Paxos` here; of its behaviour only the rejection of proposals
is used. A handler returns the new state and what it sends; `none` is a panic. -/

namespace OmniPaxosBench.OmniPaxos

open LeaderElection

inductive ProposeErr
  | normal (data : Data)
  | reconfiguration (nodes : List ℕ)
  deriving DecidableEq, Repr

/-- The library: `P` is the Paxos of one replica, with sequences in `S` and messages in `M`. -/
class Paxos (P : Type) (S M : outParam Type) where
  /-- `Paxos::with`, with an empty log. -/
  new (configId pid : ℕ) (peers : List ℕ) (skipPrepareUseLeader : Option Leader) : P
  proposeNormal : P → Data → Except ProposeErr P
  proposeReconfiguration : P → List ℕ → Option Ballot → Except ProposeErr P
  getPromise : P → Ballot
  getCurrentLeader : P → ℕ
  /-- The entries decided since the last call. -/
  getDecidedEntries : P → List Entry × P
  stopAndGetSequence : P → S × P
  getChosenEntries : P → ℕ → ℕ → List Entry
  getOutgoingMsgs : P → List M × P
  handle : P → M → P
  handleLeader : P → Leader → P
  stopped : P → Bool
  /-- The log contains a stop sign. -/
  hasStopSign : P → Bool
  /-- A proposal is rejected exactly if the log contains a stop sign. -/
  rejects_iff : ∀ p data, (∃ data', proposeNormal p data = .error (.normal data')) ↔ hasStopSign p = true

structure PaxosReplica (P : Type) where
  peers : List ℕ
  paxos : P
  configId : ℕ
  pid : ℕ
  currentLeader : ℕ
  leaderBallot : Ballot
  /-- The periodic timer is scheduled. -/
  timer : Bool
  stopped : Bool
  stoppedPeers : List ℕ
  /-- A `Stop` ask is waiting for its answer. -/
  stopAsk : Bool

inductive ReplicaOut (S M : Type)
  | supervisor (m : PaxosCompMsg S)
  | proposalResponse (data : Data) (latestLeader leaderRound : ℕ)
  | reconfigurationResponse (latestLeader leaderRound : ℕ) (currentConfiguration : List ℕ)
  | rawPaxosMsg (m : M)
  | sendStop (pid : ℕ) (ackClient : Bool)
  /-- To the `PaxosComp` that asked. -/
  | segmentTransfer (requestor : ℕ) (st : SegmentTransfer)
  /-- The answer to the `Stop` ask. -/
  | stopReply

namespace PaxosReplica

variable {P S M : Type}

/-- `PaxosReplica::with`. -/
def new (peers : List ℕ) (configId pid : ℕ) (paxos : P) : PaxosReplica P where
  peers := peers
  paxos := paxos
  configId := configId
  pid := pid
  currentLeader := 0
  leaderBallot := default
  timer := false
  stopped := false
  stoppedPeers := []
  stopAsk := false

variable [Paxos P S M] (p : PaxosReplica P)

/-- The state and outputs after a handler. -/
abbrev Result (P S M : Type) := PaxosReplica P × List (ReplicaOut S M)

def sendOutgoing : Result P S M :=
  let (msgs, paxos) := Paxos.getOutgoingMsgs p.paxos
  ({ p with paxos := paxos }, msgs.map .rawPaxosMsg)

def handleStopsign (ss : StopSign) : Result P S M :=
  let (finalSeq, paxos) := Paxos.stopAndGetSequence p.paxos
  let continued := fun pid => pid = p.pid ∨ pid ∈ p.peers
  let nodes := ⟨ss.nodes.filter continued, ss.nodes.filter (¬ continued ·)⟩
  let leader := match ss.skipPrepareUseLeader with
    | some l => l.pid
    | none => 0
  ({ p with paxos := paxos },
    [.supervisor (.reconfig ⟨ss.configId, nodes, finalSeq, ss.skipPrepareUseLeader⟩),
      .reconfigurationResponse leader p.leaderBallot.n ss.nodes])

/-- The leader answers the client for each entry decided. -/
def respond (promise : Ballot) : PaxosReplica P → List Entry → Result P S M
  | p, [] => (p, [])
  | p, .normal data :: rest =>
    let (p', out) := respond promise p rest
    (p', .proposalResponse data p.pid promise.n :: out)
  | p, .stopSign ss :: rest =>
    let (p₁, out₁) := p.handleStopsign ss
    let (p₂, out₂) := respond promise p₁ rest
    (p₂, out₁ ++ out₂)

/-- The first part of `get_decided`: a leader that the Paxos has heard of. -/
def noticeLeader : Result P S M :=
  let promise := Paxos.getPromise p.paxos
  if promise > p.leaderBallot then
    let currentLeader := Paxos.getCurrentLeader p.paxos
    ({ p with leaderBallot := promise, currentLeader := currentLeader },
      [.supervisor (.leader p.configId currentLeader promise.n)])
  else (p, [])

/-- The second part of `get_decided`: the leader answers, the others only look for a stop sign. -/
def handleDecided (promise : Ballot) (decidedEntries : List Entry) : Result P S M :=
  if p.currentLeader = p.pid then respond promise p decidedEntries
  else match decidedEntries.getLast? with
    | some (.stopSign ss) => p.handleStopsign ss
    | _ => (p, [])

def getDecided : Result P S M :=
  let promise := Paxos.getPromise p.paxos
  let (p, notice) := p.noticeLeader
  let (decidedEntries, paxos) := Paxos.getDecidedEntries p.paxos
  let (p, out) := handleDecided { p with paxos := paxos } promise decidedEntries
  (p, notice ++ out)

/-- The periodic timer. -/
def handleTimer : Option (Result P S M) :=
  if p.timer then
    let (p, out) := p.getDecided
    let (p, msgs) := p.sendOutgoing
    some (p, out ++ msgs)
  else none

def propose (data : Data) : Except ProposeErr P := Paxos.proposeNormal p.paxos data

/-- `PaxosReplicaMsg::Propose`. -/
def handlePropose (proposal : Proposal) : Option (Result P S M) :=
  match p.propose proposal.data with
  | .ok paxos => some ({ p with paxos := paxos }, [])
  | .error (.normal data) => some (p, [.supervisor (.pendingReconfig data)])
  | .error (.reconfiguration _) => none

/-- `PaxosReplicaMsg::ProposeReconfiguration`, with the indices drawn and the configured
`prio_start_round`. -/
def handleProposeReconfiguration (rp : ReconfigurationProposal) (rnds : List ℕ) (prioStartRound : ℕ) :
    Option (Result P S M) := do
  let newConfig ← rp.getNewConfiguration p.currentLeader (p.peers ++ [p.pid]) rnds
  match Paxos.proposeReconfiguration p.paxos newConfig (some ⟨prioStartRound, 0⟩) with
  | .ok paxos => some ({ p with paxos := paxos }, [])
  | .error _ => none

/-- `PaxosReplicaMsg::LocalSegmentReq`. -/
def handleLocalSegmentReq (requestor : ℕ) (sr : SegmentRequest) (prevSeqMetadata : SequenceMetaData) :
    Result P S M :=
  let entries := Paxos.getChosenEntries p.paxos sr.idx.fromIdx sr.idx.toIdx
  let succeeded := decide (entries ≠ [])
  (p, [.segmentTransfer requestor ⟨sr.configId, succeeded, prevSeqMetadata, ⟨sr.idx, entries⟩⟩])

/-- `PaxosReplicaMsg::Stop`. -/
def handleStop (ackClient : Bool) : Result P S M :=
  let p' := { p with timer := false, stopped := true }
  if p.stoppedPeers.length = p.peers.length then (p', [.sendStop p.pid ackClient, .stopReply])
  else ({ p' with stopAsk := true }, [.sendStop p.pid ackClient])

def receiveLocal (rnds : List ℕ) (prioStartRound : ℕ) : PaxosReplicaMsg → Option (Result P S M)
  | .propose proposal => p.handlePropose proposal
  | .proposeReconfiguration rp => p.handleProposeReconfiguration rp rnds prioStartRound
  | .localSegmentReq requestor sr metadata => some (p.handleLocalSegmentReq requestor sr metadata)
  | .stop ackClient => some (p.handleStop ackClient)

/-- `AtomicBroadcastCompMsg::RawPaxosMsg`. -/
def handleRaw (m : M) : Result P S M :=
  if p.stopped then (p, []) else ({ p with paxos := Paxos.handle p.paxos m }, [])

/-- `AtomicBroadcastCompMsg::StopMsg`. -/
def handlePeerStop (pid : ℕ) : Option (Result P S M) :=
  if pid ∈ p.stoppedPeers then none
  else
    let p := { p with stoppedPeers := p.stoppedPeers ++ [pid] }
    if p.stopped ∧ p.stoppedPeers.length = p.peers.length then
      if p.stopAsk then some ({ p with stopAsk := false }, [.stopReply]) else none
    else some (p, [])

/-- A leader is indicated. -/
def handleLeader (l : Leader) : Result P S M :=
  let p := { p with paxos := Paxos.handleLeader p.paxos l }
  if p.leaderBallot < l.round ∧ Paxos.stopped p.paxos = false then
    ({ p with currentLeader := l.pid, leaderBallot := l.round },
      [.supervisor (.leader p.configId l.pid l.round.n)])
  else (p, [])

/-- `on_start`. -/
def onStart : PaxosReplica P := if p.peers ≠ [] then { p with timer := true } else p

/-- What `set_initial_replica_state_after_reconfig` does to a replica. -/
def setInitialState (configId : ℕ) (peers : List ℕ) (skipPrepareUseLeader : Option Leader) :
    PaxosReplica P :=
  { p with peers := peers, paxos := Paxos.new configId p.pid peers skipPrepareUseLeader }

/-! ### What is told to the supervisor -/

/-- No proposal is handed back, and the configuration stays. -/
structure Quiet (p : PaxosReplica P) (r : Result P S M) : Prop where
  config : r.1.configId = p.configId
  outs : ∀ data, .supervisor (.pendingReconfig data) ∉ r.2

variable {p q : PaxosReplica P} {r : Result P S M} {out : List (ReplicaOut S M)}

section Quiet

omit [Paxos P S M]

theorem quiet_nil (h : q.configId = p.configId) : Quiet p ((q, []) : Result P S M) :=
  ⟨h, fun _ => List.not_mem_nil⟩

theorem Quiet.cons {o : ReplicaOut S M} (h : Quiet p (q, out))
    (ho : ∀ data, .supervisor (.pendingReconfig data) ≠ o) : Quiet p (q, o :: out) := by
  refine ⟨h.config, fun data hmem => ?_⟩
  rcases List.mem_cons.mp hmem with heq | hmem
  · exact ho data heq
  · exact h.outs data hmem

/-- One handler after the other. -/
theorem Quiet.append (h : Quiet p (q, out)) (hr : Quiet q r) : Quiet p (r.1, out ++ r.2) := by
  refine ⟨hr.config.trans h.config, fun data hmem => ?_⟩
  rcases List.mem_append.mp hmem with hmem | hmem
  · exact h.outs data hmem
  · exact hr.outs data hmem

theorem handleStop_quiet (p : PaxosReplica P) (ackClient : Bool) :
    Quiet p (p.handleStop ackClient : Result P S M) := by
  unfold handleStop
  dsimp only
  split_ifs
  · exact Quiet.cons (Quiet.cons (quiet_nil rfl) fun _ => nofun) fun _ => nofun
  · exact Quiet.cons (quiet_nil rfl) fun _ => nofun

theorem handlePeerStop_quiet {pid : ℕ} (h : p.handlePeerStop pid = some r) : Quiet p r := by
  unfold handlePeerStop at h
  dsimp only at h
  split_ifs at h
  · cases h
    exact Quiet.cons (quiet_nil rfl) fun _ => nofun
  · cases h
    exact quiet_nil rfl

end Quiet

theorem sendOutgoing_quiet (p : PaxosReplica P) : Quiet p (p.sendOutgoing : Result P S M) := by
  refine ⟨rfl, fun data hmem => ?_⟩
  obtain ⟨m, -, hm⟩ := List.mem_map.mp hmem
  cases hm

theorem handleStopsign_quiet (p : PaxosReplica P) (ss : StopSign) :
    Quiet p (p.handleStopsign ss : Result P S M) :=
  Quiet.cons (Quiet.cons (quiet_nil rfl) fun _ => nofun) fun _ => nofun

/-- Answering for the entries decided; the entries are taken one after the other. -/
theorem respond_quiet (promise : Ballot) (entries : List Entry) (p : PaxosReplica P) :
    Quiet p (respond promise p entries : Result P S M) := by
  induction entries generalizing p with
  | nil => exact quiet_nil rfl
  | cons entry rest ih =>
    cases entry with
    | normal data => exact Quiet.cons (ih p) fun _ => nofun
    | stopSign ss => exact (handleStopsign_quiet p ss).append (ih _)

theorem noticeLeader_quiet (p : PaxosReplica P) : Quiet p (p.noticeLeader : Result P S M) := by
  unfold noticeLeader
  dsimp only
  split_ifs
  · exact Quiet.cons (quiet_nil rfl) fun _ => nofun
  · exact quiet_nil rfl

theorem handleDecided_quiet (p : PaxosReplica P) (promise : Ballot) (entries : List Entry) :
    Quiet p (p.handleDecided promise entries : Result P S M) := by
  unfold handleDecided
  split_ifs
  · exact respond_quiet _ _ _
  · split
    · exact handleStopsign_quiet _ _
    · exact quiet_nil rfl

theorem getDecided_quiet (p : PaxosReplica P) : Quiet p (p.getDecided : Result P S M) := by
  have hnotice : Quiet p (p.noticeLeader : Result P S M) := noticeLeader_quiet p
  unfold getDecided
  dsimp only
  refine ⟨(handleDecided_quiet _ _ _).config.trans hnotice.config, fun data hmem => ?_⟩
  rcases List.mem_append.mp hmem with h | h
  · exact hnotice.outs data h
  · exact (handleDecided_quiet _ _ _).outs data h

theorem handleTimer_quiet (h : p.handleTimer = some r) : Quiet p r := by
  unfold handleTimer at h
  split_ifs at h
  cases h
  exact (getDecided_quiet p).append (sendOutgoing_quiet _)

theorem handleProposeReconfiguration_quiet {rp : ReconfigurationProposal} {rnds : List ℕ} {prio : ℕ}
    (h : p.handleProposeReconfiguration rp rnds prio = some r) : Quiet p r := by
  unfold handleProposeReconfiguration at h
  obtain ⟨newConfig, -, h⟩ := Option.bind_eq_some_iff.mp h
  split at h
  · cases h
    exact quiet_nil rfl
  · cases h

theorem handleLeader_quiet (p : PaxosReplica P) (l : Leader) :
    Quiet p (p.handleLeader l : Result P S M) := by
  unfold handleLeader
  dsimp only
  split_ifs
  · exact Quiet.cons (quiet_nil rfl) fun _ => nofun
  · exact quiet_nil rfl

theorem handleRaw_quiet (p : PaxosReplica P) (m : M) : Quiet p (p.handleRaw m : Result P S M) := by
  unfold handleRaw
  split_ifs
  · exact quiet_nil rfl
  · exact quiet_nil rfl

/-- A message of the supervisor is handed back only if it is a proposal and is rejected. -/
theorem receiveLocal_cases {rnds : List ℕ} {prio : ℕ} {m : PaxosReplicaMsg}
    (h : p.receiveLocal rnds prio m = some r) : Quiet p r ∨ ∃ proposal data, m = .propose proposal ∧
      p.propose proposal.data = .error (.normal data) ∧ r = (p, [.supervisor (.pendingReconfig data)]) := by
  cases m with
  | propose proposal =>
    have h' : p.handlePropose proposal = some r := h
    unfold handlePropose at h'
    split at h'
    · cases h'
      exact Or.inl (quiet_nil rfl)
    · next data hdata =>
      cases h'
      exact Or.inr ⟨proposal, data, rfl, hdata, rfl⟩
    · cases h'
  | proposeReconfiguration rp => exact Or.inl (handleProposeReconfiguration_quiet h)
  | localSegmentReq requestor sr metadata =>
    cases h
    exact Or.inl (Quiet.cons (quiet_nil rfl) fun _ => nofun)
  | stop ackClient =>
    cases h
    exact Or.inl (handleStop_quiet p ackClient)

end PaxosReplica

end OmniPaxosBench.OmniPaxos
