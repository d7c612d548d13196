import OmniPaxosBench.Lib.Timers
import OmniPaxosBench.LeaderElection.Ballot
import OmniPaxosBench.Partition

/-! # Ballot leader election: one node

A node asks its peers for their ballots in every heartbeat round. When the round's timer fires and
enough replies are in, it takes the largest ballot of a candidate as that of the leader; if that is
below the ballot of its present leader, it raises its own ballot above it and has no leader. The
delay of the timer is left out, and with it `hb_delay`, `quick_timeout` and `initial_election_factor`,
which only enter there.

`Move` lists what an event can do to a node, and `handle_move` proves the list complete. -/

namespace OmniPaxosBench.LeaderElection

open OmniPaxosBench.Lib

structure HeartbeatReply where
  round : ℕ
  ballot : Ballot
  candidate : Bool
  deriving DecidableEq, Repr

/-- What a node sends, and the indications it triggers. -/
inductive BleOut
  | request (peer round : ℕ)
  | reply (peer : ℕ) (m : HeartbeatReply)
  | peerStop (peer pid : ℕ)
  | indication (l : Leader)
  /-- The answer to the `Stop` ask. -/
  | stopReply
  deriving DecidableEq, Repr

structure BallotLeaderComp extends Partition where
  pid : ℕ
  peers : List ℕ
  hbRound : ℕ
  ballots : List (Ballot × Bool)
  currentBallot : Ballot
  candidate : Bool
  leader : Option Ballot
  majority : ℕ
  timer : Option (Timer Unit)
  stopped : Bool
  stoppedPeers : List ℕ
  /-- A `Stop` ask is waiting for its answer. -/
  stopAsk : Bool
  /-- The timers that are scheduled and not cancelled. -/
  timers : Timers Unit

/-- What can happen to a node. -/
inductive BleEvent
  | timeout (id : ℕ)
  | request (sender round : ℕ)
  | reply (m : HeartbeatReply)
  | stop (pid : ℕ)
  | peerStop (pid : ℕ)
  | partition (e : PartitionEvent)
  deriving DecidableEq, Repr

namespace BallotLeaderComp

/-- `BallotLeaderComp::with`. -/
def new (peers : List ℕ) (pid : ℕ) (initialLeader : Option Leader) : BallotLeaderComp :=
  let n := peers.length + 1
  let (leader, initialBallot) := match initialLeader with
    | some l =>
      let leaderBallot : Ballot := ⟨l.round.n, l.pid⟩
      (some leaderBallot, if l.pid = pid then leaderBallot else ⟨0, pid⟩)
    | none => (none, ⟨0, pid⟩)
  { pid := pid
    majority := n / 2 + 1
    peers := peers
    hbRound := 0
    ballots := []
    currentBallot := initialBallot
    candidate := true
    leader := leader
    timer := none
    stopped := false
    stoppedPeers := []
    stopAsk := false
    timers := .empty }

variable (c : BallotLeaderComp)

/-- `set_initial_leader`; asserts that there is no leader yet. -/
def setInitialLeader (l : Leader) : Option (BallotLeaderComp × List BleOut) :=
  if c.leader = none then
    let leaderBallot : Ballot := ⟨l.round.n, l.pid⟩
    some ({ c with
        leader := some leaderBallot
        currentBallot := if l.pid = c.pid then leaderBallot else ⟨0, c.pid⟩ },
      [.indication ⟨l.pid, leaderBallot⟩])
  else none

/-- What `set_initial_replica_state_after_reconfig` of `PaxosComp` does to a node. -/
def setPeersAfterReconfig (blePeers : List ℕ) : BallotLeaderComp :=
  { c with majority := blePeers.length / 2 + 1, peers := blePeers }

/-- The ballots of the candidates. -/
def candidates (ballots : List (Ballot × Bool)) : List Ballot :=
  ballots.filterMap fun (ballot, candidate) => if candidate then some ballot else none

def checkLeader : BallotLeaderComp × List BleOut :=
  let topBallot := topBallot (candidates c.ballots)
  let c := { c with ballots := [] }
  let leader := c.leader.getD default
  if topBallot < leader then
    ({ c with
        currentBallot := { c.currentBallot with n := (leader.n + 1) % 2 ^ 32 }
        leader := none }, [])
  else if c.leader ≠ some topBallot then
    ({ c with leader := some topBallot }, [.indication ⟨topBallot.pid, topBallot⟩])
  else (c, [])

def startTimer : BallotLeaderComp :=
  { c with timers := c.timers.schedule (), timer := some (c.timers.handle ()) }

def stopTimer : BallotLeaderComp :=
  match c.timer with
  | some t => { c with timer := none, timers := c.timers.cancel t }
  | none => c

def newHbRound : BallotLeaderComp × List BleOut :=
  let c := { c with hbRound := (c.hbRound + 1) % 2 ^ 32 }
  (c.startTimer, c.peers.map fun peer => .request peer c.hbRound)

/-- The quorum check of `hb_timeout`: enough replies of the round, with the node itself. -/
def HasQuorum : Prop := c.majority ≤ c.ballots.length + 1

instance : Decidable c.HasQuorum := inferInstanceAs (Decidable (_ ≤ _))

def hbTimeout : BallotLeaderComp × List BleOut :=
  if c.HasQuorum then
    let c := { c with candidate := true }
    let c := { c with ballots := c.ballots ++ [(c.currentBallot, c.candidate)] }
    let (c, out) := c.checkLeader
    let (c, out') := c.newHbRound
    (c, out ++ out')
  else { c with ballots := [], candidate := false }.newHbRound

/-- A scheduled closure runs. -/
def handleTimeout (id : ℕ) : Option (BallotLeaderComp × List BleOut) :=
  (c.timers.fire id).map fun (_, timers) => { c with timers := timers }.hbTimeout

def handleRequest (sender round : ℕ) : BallotLeaderComp × List BleOut :=
  if c.stopped then (c, []) else (c, [.reply sender ⟨round, c.currentBallot, c.candidate⟩])

def handleReply (m : HeartbeatReply) : BallotLeaderComp :=
  if c.stopped then c
  else if m.ballot.pid ∈ c.disconnectedPeers then c
  else if m.round = c.hbRound then { c with ballots := c.ballots ++ [(m.ballot, m.candidate)] }
  else c

/-- `receive_local`. -/
def handleStop (pid : ℕ) : BallotLeaderComp × List BleOut :=
  let c := { c with disconnectedPeers := [] }
  let c := c.stopTimer
  let out := c.peers.map fun peer => .peerStop peer pid
  let c := { c with stopped := true }
  if c.stoppedPeers.length = c.peers.length then (c, out ++ [.stopReply])
  else ({ c with stopAsk := true }, out)

/-- A `NetStopMsg::Peer`; a second one from the same peer, or a missing ask, is a panic. -/
def handlePeerStop (pid : ℕ) : Option (BallotLeaderComp × List BleOut) :=
  if pid ∈ c.stoppedPeers then none
  else
    let c := { c with stoppedPeers := c.stoppedPeers ++ [pid] }
    if c.stopped ∧ c.stoppedPeers.length = c.peers.length then
      if c.stopAsk then some ({ c with stopAsk := false }, [.stopReply]) else none
    else some (c, [])

/-- `on_start`. -/
def onStart : BallotLeaderComp × List BleOut := c.newHbRound

/-- One event; `none` if it cannot happen. -/
def handle : BleEvent → Option (BallotLeaderComp × List BleOut)
  | .timeout id => c.handleTimeout id
  | .request sender round => some (c.handleRequest sender round)
  | .reply m => some (c.handleReply m, [])
  | .stop pid => some (c.handleStop pid)
  | .peerStop pid => c.handlePeerStop pid
  | .partition e => (c.toPartition.handlePartition e).map fun s => ({ c with toPartition := s }, [])

/-! ### What an event can do -/

/-- Neither an indication nor a reply. -/
def IsNote : BleOut → Prop
  | .indication _ | .reply _ _ => False
  | _ => True

/-- The effects of an event on a node: nothing of interest, an answer to a request, a reply stored,
the leader given up, and a new leader. -/
inductive Move (c : BallotLeaderComp) : BleEvent → BallotLeaderComp → List BleOut → Prop
  | quiet (e : BleEvent) (c' : BallotLeaderComp) (out : List BleOut)
      (ballot : c'.currentBallot = c.currentBallot) (leader : c'.leader = c.leader)
      (ballots : ∀ x ∈ c'.ballots, x ∈ c.ballots) (outs : ∀ o ∈ out, IsNote o) : Move c e c' out
  | answer (sender round : ℕ) :
      Move c (.request sender round) c [.reply sender ⟨round, c.currentBallot, c.candidate⟩]
  | collect (m : HeartbeatReply) :
      Move c (.reply m) { c with ballots := c.ballots ++ [(m.ballot, m.candidate)] } []
  | drop (e : BleEvent) (c' : BallotLeaderComp) (out : List BleOut) (b : Ballot)
      (had : c.leader = some b) (below : c.currentBallot < b)
      (ballot : c'.currentBallot = ⟨(b.n + 1) % 2 ^ 32, c.currentBallot.pid⟩)
      (leader : c'.leader = none) (ballots : c'.ballots = []) (outs : ∀ o ∈ out, IsNote o) :
      Move c e c' out
  | adopt (e : BleEvent) (c' : BallotLeaderComp) (out : List BleOut) (b : Ballot)
      (source : b = c.currentBallot ∨ ∃ x ∈ c.ballots, x.1 = b) (own : c.currentBallot ≤ b)
      (above : ∀ b', c.leader = some b' → b' < b) (ballot : c'.currentBallot = c.currentBallot)
      (leader : c'.leader = some b) (ballots : c'.ballots = []) (outs : ∀ o ∈ out, IsNote o) :
      Move c e c' (.indication ⟨b.pid, b⟩ :: out)

variable {c}

theorem isNote_newHbRound {c : BallotLeaderComp} {o : BleOut} (h : o ∈ c.newHbRound.2) : IsNote o := by
  obtain ⟨peer, -, rfl⟩ := List.mem_map.mp h
  trivial

theorem mem_candidates {ballots : List (Ballot × Bool)} {b : Ballot} :
    b ∈ candidates ballots ↔ (b, true) ∈ ballots := by
  unfold candidates
  rw [List.mem_filterMap]
  constructor
  · rintro ⟨⟨b', candidate⟩, hmem, h⟩
    cases candidate with
    | true => cases h; exact hmem
    | false => cases h
  · intro h
    exact ⟨(b, true), h, rfl⟩

/-- The check of the leader with the node's own ballot among the replies. -/
theorem hbTimeout_move {c₀ : BallotLeaderComp} (e : BleEvent)
    (hballot : c₀.currentBallot = c.currentBallot) (hleader : c₀.leader = c.leader)
    (hballots : c₀.ballots = c.ballots) : Move c e c₀.hbTimeout.1 c₀.hbTimeout.2 := by
  unfold hbTimeout
  split_ifs with hq
  · set ballots := c₀.ballots ++ [(c₀.currentBallot, true)] with hdef
    set top := topBallot (candidates ballots) with htop
    have hown : c₀.currentBallot ∈ candidates ballots := by
      rw [mem_candidates, hdef]; simp
    obtain ⟨hmem, hmax⟩ := topBallot_spec hown
    have hsource : top = c.currentBallot ∨ ∃ x ∈ c.ballots, x.1 = top := by
      rw [mem_candidates, ← htop, hdef, List.mem_append, hballots] at hmem
      rcases hmem with hmem | hmem
      · exact Or.inr ⟨_, hmem, rfl⟩
      · rw [List.mem_singleton] at hmem
        exact Or.inl ((congrArg Prod.fst hmem).trans hballot)
    have hge : c.currentBallot ≤ top := by
      rw [← hballot]; exact hmax _ hown
    unfold checkLeader
    dsimp only
    rw [← hdef, ← htop]
    split_ifs with hlt hne
    · -- the top ballot is below that of the leader
      cases hl : c₀.leader with
      | none =>
        rw [hl] at hlt
        exact absurd hlt Ballot.not_lt_default
      | some b =>
        rw [hl] at hlt
        refine .drop e _ _ b (hleader ▸ hl) (hge.trans_lt hlt) ?_ rfl rfl fun o ho => ?_
        · rw [← hballot]; rfl
        · exact isNote_newHbRound ho
    · refine .adopt e _ _ top hsource hge (fun b' hb' => ?_) hballot rfl rfl fun o ho => ?_
      · rw [← hleader] at hb'
        rw [hb'] at hlt hne
        have hle : b' ≤ top := not_lt.mp hlt
        exact lt_of_le_of_ne hle fun heq => hne (congrArg some heq)
      · exact isNote_newHbRound ho
    · refine .quiet e _ _ hballot hleader (fun x hx => ?_) fun o ho => ?_
      · cases hx
      · exact isNote_newHbRound ho
  · refine .quiet e _ _ hballot hleader (fun x hx => ?_) fun o ho => ?_
    · cases hx
    · exact isNote_newHbRound ho

theorem handleStop_move (pid : ℕ) : Move c (.stop pid) (c.handleStop pid).1 (c.handleStop pid).2 := by
  have hstop : ∀ d : BallotLeaderComp, d.stopTimer.currentBallot = d.currentBallot ∧
      d.stopTimer.leader = d.leader ∧ d.stopTimer.ballots = d.ballots := by
    intro d
    unfold stopTimer
    split <;> exact ⟨rfl, rfl, rfl⟩
  obtain ⟨h1, h2, h3⟩ := hstop { c with disconnectedPeers := [] }
  have hnote : ∀ o ∈ { c with disconnectedPeers := [] }.stopTimer.peers.map
      (fun peer => BleOut.peerStop peer pid), IsNote o := by
    intro o ho
    obtain ⟨peer, -, rfl⟩ := List.mem_map.mp ho
    trivial
  unfold handleStop
  dsimp only
  split_ifs with hlen
  · refine .quiet _ _ _ h1 h2 (fun x hx => h3 ▸ hx) fun o ho => ?_
    rcases List.mem_append.mp ho with ho | ho
    · exact hnote o ho
    · rw [List.mem_singleton.mp ho]; trivial
  · exact .quiet _ _ _ h1 h2 (fun x hx => h3 ▸ hx) hnote

theorem handlePeerStop_move {pid : ℕ} {c' : BallotLeaderComp} {out : List BleOut}
    (h : c.handlePeerStop pid = some (c', out)) : Move c (.peerStop pid) c' out := by
  unfold handlePeerStop at h
  dsimp only at h
  split_ifs at h
  · cases h
    refine .quiet _ _ _ rfl rfl (fun x hx => hx) fun o ho => ?_
    rw [List.mem_singleton.mp ho]; trivial
  · cases h
    exact .quiet _ _ _ rfl rfl (fun x hx => hx) fun o ho => by cases ho

/-- **Every event has one of the effects of `Move`.** -/
theorem handle_move {e : BleEvent} {c' : BallotLeaderComp} {out : List BleOut}
    (h : c.handle e = some (c', out)) : Move c e c' out := by
  cases e with
  | timeout id =>
    obtain ⟨⟨_, timers⟩, -, heq⟩ := Option.map_eq_some_iff.mp h
    have hmove : Move c (.timeout id) { c with timers := timers }.hbTimeout.1
        { c with timers := timers }.hbTimeout.2 := hbTimeout_move _ rfl rfl rfl
    dsimp only at heq
    rw [heq] at hmove
    exact hmove
  | request sender round =>
    have heq := Option.some.inj h
    unfold handleRequest at heq
    split_ifs at heq
    · cases heq
      exact .quiet _ _ _ rfl rfl (fun x hx => hx) fun o ho => by cases ho
    · cases heq
      exact .answer sender round
  | reply m =>
    cases h
    unfold handleReply
    split_ifs
    · exact .quiet _ _ _ rfl rfl (fun x hx => hx) fun o ho => by cases ho
    · exact .quiet _ _ _ rfl rfl (fun x hx => hx) fun o ho => by cases ho
    · exact .collect m
    · exact .quiet _ _ _ rfl rfl (fun x hx => hx) fun o ho => by cases ho
  | stop pid =>
    have hmove := handleStop_move (c := c) pid
    rw [Option.some.inj h] at hmove
    exact hmove
  | peerStop pid => exact handlePeerStop_move h
  | partition e =>
    obtain ⟨part, -, heq⟩ := Option.map_eq_some_iff.mp h
    cases heq
    exact .quiet _ _ _ rfl rfl (fun x hx => hx) fun o ho => by cases ho

end BallotLeaderComp

end OmniPaxosBench.LeaderElection
