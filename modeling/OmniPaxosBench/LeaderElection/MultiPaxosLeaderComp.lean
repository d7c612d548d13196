import OmniPaxosBench.Lib.Timers
import OmniPaxosBench.LeaderElection.Ballot
import OmniPaxosBench.Partition

/-! # Multi-Paxos style leader election: one node

The node of `mp_le.rs` differs from that of the ballot leader election in two ways. Every reply counts
in the check at the end of a round, and a reply also names the leader of its sender: the node takes
that one over at once if its ballot is above that of its own leader, and a node that has no leader
takes over any. As before the delay of the timer is left out.

`Move` lists what an event can do to a node, and `handle_move` proves the list complete. -/

namespace OmniPaxosBench.LeaderElection

open OmniPaxosBench.Lib

/-- `HeartbeatReply` of `mp_leader_election`. -/
structure MPHeartbeatReply where
  round : ℕ
  ballot : Ballot
  currentLeader : Ballot
  deriving DecidableEq, Repr

/-- What a node sends, and the indications it triggers. -/
inductive MPOut
  | request (peer round : ℕ)
  | reply (peer : ℕ) (m : MPHeartbeatReply)
  | peerStop (peer pid : ℕ)
  | indication (l : Leader)
  /-- The answer to the `Stop` ask. -/
  | stopReply
  deriving DecidableEq, Repr

structure MultiPaxosLeaderComp extends Partition where
  pid : ℕ
  peers : List ℕ
  hbRound : ℕ
  ballots : List Ballot
  currentBallot : Ballot
  leader : Option Ballot
  majority : ℕ
  timer : Option (Timer Unit)
  stopped : Bool
  stoppedPeers : List ℕ
  /-- A `Stop` ask is waiting for its answer. -/
  stopAsk : Bool
  /-- The timers that are scheduled and not cancelled. -/
  timers : Timers Unit

/-- What can happen to a node. -/
inductive MPEvent
  | timeout (id : ℕ)
  | request (sender round : ℕ)
  | reply (m : MPHeartbeatReply)
  | stop (pid : ℕ)
  | peerStop (pid : ℕ)
  | partition (e : PartitionEvent)
  deriving DecidableEq, Repr

namespace MultiPaxosLeaderComp

/-- `MultiPaxosLeaderComp::with`. -/
def new (peers : List ℕ) (pid : ℕ) (initialLeader : Option Leader) : MultiPaxosLeaderComp :=
  let n := peers.length + 1
  let (leader, initialBallot) := match initialLeader with
    | some l =>
      let leaderBallot : Ballot := ⟨l.round.n, l.pid⟩
      (some leaderBallot, if l.pid = pid then leaderBallot else ⟨0, pid⟩)
    | none => (none, ⟨0, pid⟩)
  { pid := pid
    majority := n / 2 + 1
    peers := peers
    hbRound := 0
    ballots := []
    currentBallot := initialBallot
    leader := leader
    timer := none
    stopped := false
    stoppedPeers := []
    stopAsk := false
    timers := .empty }

variable (c : MultiPaxosLeaderComp)

def checkLeader : MultiPaxosLeaderComp × List MPOut :=
  let topBallot := topBallot c.ballots
  let c := { c with ballots := [] }
  let leader := c.leader.getD default
  if topBallot < leader then
    -- did not get a heartbeat from the leader
    ({ c with
        currentBallot := { c.currentBallot with n := (leader.n + 1) % 2 ^ 32 }
        leader := none }, [])
  else if c.leader ≠ some topBallot then
    ({ c with leader := some topBallot }, [.indication ⟨topBallot.pid, topBallot⟩])
  else (c, [])

def startTimer : MultiPaxosLeaderComp :=
  { c with timers := c.timers.schedule (), timer := some (c.timers.handle ()) }

def stopTimer : MultiPaxosLeaderComp :=
  match c.timer with
  | some t => { c with timer := none, timers := c.timers.cancel t }
  | none => c

def newHbRound : MultiPaxosLeaderComp × List MPOut :=
  let c := { c with hbRound := (c.hbRound + 1) % 2 ^ 32 }
  (c.startTimer, c.peers.map fun peer => .request peer c.hbRound)

def hbTimeout : MultiPaxosLeaderComp × List MPOut :=
  if c.majority ≤ c.ballots.length + 1 then
    let c := { c with ballots := c.ballots ++ [c.currentBallot] }
    let (c, out) := c.checkLeader
    let (c, out') := c.newHbRound
    (c, out ++ out')
  else { c with ballots := [] }.newHbRound

/-- A scheduled closure runs. -/
def handleTimeout (id : ℕ) : Option (MultiPaxosLeaderComp × List MPOut) :=
  (c.timers.fire id).map fun (_, timers) => { c with timers := timers }.hbTimeout

def handleRequest (sender round : ℕ) : MultiPaxosLeaderComp × List MPOut :=
  if c.stopped then (c, [])
  else (c, [.reply sender ⟨round, c.currentBallot, c.leader.getD default⟩])

def handleReply (m : MPHeartbeatReply) : MultiPaxosLeaderComp × List MPOut :=
  if c.stopped then (c, [])
  else if m.ballot.pid ∈ c.disconnectedPeers then (c, [])
  else if m.round = c.hbRound then
    let c := { c with ballots := c.ballots ++ [m.ballot] }
    if c.leader.getD default < m.currentLeader then
      ({ c with leader := some m.currentLeader },
        [.indication ⟨m.currentLeader.pid, m.currentLeader⟩])
    else (c, [])
  else (c, [])

/-- `receive_local`. -/
def handleStop (pid : ℕ) : MultiPaxosLeaderComp × List MPOut :=
  let c := { c with disconnectedPeers := [] }
  let c := c.stopTimer
  let out := c.peers.map fun peer => .peerStop peer pid
  let c := { c with stopped := true }
  if c.stoppedPeers.length = c.peers.length then (c, out ++ [.stopReply])
  else ({ c with stopAsk := true }, out)

/-- A `NetStopMsg::Peer`; a second one from the same peer, or a missing ask, is a panic. -/
def handlePeerStop (pid : ℕ) : Option (MultiPaxosLeaderComp × List MPOut) :=
  if pid ∈ c.stoppedPeers then none
  else
    let c := { c with stoppedPeers := c.stoppedPeers ++ [pid] }
    if c.stopped ∧ c.stoppedPeers.length = c.peers.length then
      if c.stopAsk then some ({ c with stopAsk := false }, [.stopReply]) else none
    else some (c, [])

/-- `on_start`. -/
def onStart : MultiPaxosLeaderComp × List MPOut := c.newHbRound

/-- One event; `none` if it cannot happen. -/
def handle : MPEvent → Option (MultiPaxosLeaderComp × List MPOut)
  | .timeout id => c.handleTimeout id
  | .request sender round => some (c.handleRequest sender round)
  | .reply m => some (c.handleReply m)
  | .stop pid => some (c.handleStop pid)
  | .peerStop pid => c.handlePeerStop pid
  | .partition e => (c.toPartition.handlePartition e).map fun s => ({ c with toPartition := s }, [])

/-- The leader a reply names is taken over: the reply is of the present round, and its leader is above
the node's own. -/
def TakesOver (m : MPHeartbeatReply) : Prop :=
  c.stopped = false ∧ m.ballot.pid ∉ c.disconnectedPeers ∧ m.round = c.hbRound ∧
    c.leader.getD default < m.currentLeader

instance (m : MPHeartbeatReply) : Decidable (c.TakesOver m) :=
  inferInstanceAs (Decidable (_ ∧ _ ∧ _ ∧ _))

/-! ### What an event can do -/

/-- The indications among some messages, in order. -/
def indicationsOf (out : List MPOut) : List Leader :=
  out.filterMap fun
    | .indication l => some l
    | _ => none

/-- The effects of an event on a node's ballot and leader, and its indications: none, the leader given
up, a new leader from the check of the ballots, and the leader of a reply. -/
inductive Move (c : MultiPaxosLeaderComp) : MPEvent → MultiPaxosLeaderComp → List Leader → Prop
  | quiet (e : MPEvent) (c' : MultiPaxosLeaderComp) (ballot : c'.currentBallot = c.currentBallot)
      (leader : c'.leader = c.leader) (stays : ∀ m, e = .reply m → ¬ c.TakesOver m) : Move c e c' []
  | drop (id : ℕ) (c' : MultiPaxosLeaderComp) (b : Ballot) (had : c.leader = some b)
      (ballot : c'.currentBallot = ⟨(b.n + 1) % 2 ^ 32, c.currentBallot.pid⟩)
      (leader : c'.leader = none) : Move c (.timeout id) c' []
  | adopt (id : ℕ) (c' : MultiPaxosLeaderComp) (b : Ballot) (own : c.currentBallot ≤ b)
      (above : ∀ b', c.leader = some b' → b' < b) (ballot : c'.currentBallot = c.currentBallot)
      (leader : c'.leader = some b) : Move c (.timeout id) c' [⟨b.pid, b⟩]
  | takeOver (m : MPHeartbeatReply) (c' : MultiPaxosLeaderComp) (takes : c.TakesOver m)
      (ballot : c'.currentBallot = c.currentBallot) (leader : c'.leader = some m.currentLeader) :
      Move c (.reply m) c' [⟨m.currentLeader.pid, m.currentLeader⟩]

variable {c}

theorem indicationsOf_append (out out' : List MPOut) :
    indicationsOf (out ++ out') = indicationsOf out ++ indicationsOf out' := List.filterMap_append

theorem indicationsOf_newHbRound (c : MultiPaxosLeaderComp) : indicationsOf c.newHbRound.2 = [] := by
  unfold indicationsOf
  rw [List.filterMap_eq_nil_iff]
  intro o ho
  obtain ⟨peer, -, rfl⟩ := List.mem_map.mp ho
  rfl

/-- The check of the leader, with the node's own ballot among those received. -/
theorem hbTimeout_move (c₀ : MultiPaxosLeaderComp) (id : ℕ)
    (hballot : c₀.currentBallot = c.currentBallot) (hleader : c₀.leader = c.leader) :
    Move c (.timeout id) c₀.hbTimeout.1 (indicationsOf c₀.hbTimeout.2) := by
  have hno : ∀ m, MPEvent.timeout id = .reply m → ¬ c.TakesOver m := by simp
  unfold hbTimeout
  split_ifs with hq
  · set ballots := c₀.ballots ++ [c₀.currentBallot] with hdef
    have hown : c₀.currentBallot ∈ ballots := by rw [hdef]; simp
    have hge : c.currentBallot ≤ topBallot ballots := by
      rw [← hballot]; exact (topBallot_spec hown).2 _ hown
    unfold checkLeader
    dsimp only
    rw [indicationsOf_append, indicationsOf_newHbRound, List.append_nil]
    split_ifs with hlt hne
    · cases hl : c₀.leader with
      | none =>
        rw [hl] at hlt
        exact absurd hlt Ballot.not_lt_default
      | some b =>
        refine .drop id _ b (hleader ▸ hl) ?_ rfl
        rw [← hballot]; rfl
    · refine .adopt id _ (topBallot ballots) hge (fun b' hb' => ?_) hballot rfl
      rw [← hleader] at hb'
      rw [hb'] at hlt hne
      have hle : b' ≤ topBallot ballots := not_lt.mp hlt
      exact lt_of_le_of_ne hle fun heq => hne (congrArg some heq)
    · exact .quiet _ _ hballot hleader hno
  · rw [indicationsOf_newHbRound]
    exact .quiet _ _ hballot hleader hno

theorem handleReply_move {m : MPHeartbeatReply} {c' : MultiPaxosLeaderComp} {out : List MPOut}
    (h : c.handleReply m = (c', out)) : Move c (.reply m) c' (indicationsOf out) := by
  have hstay : ∀ {c' : MultiPaxosLeaderComp}, ¬ c.TakesOver m → c'.currentBallot = c.currentBallot →
      c'.leader = c.leader → Move c (.reply m) c' [] := fun hno hb hl =>
    .quiet _ _ hb hl fun m' hm' => by cases hm'; exact hno
  unfold handleReply at h
  dsimp only at h
  split_ifs at h with hstop hdisc hround hlt
  · cases h; exact hstay (fun ht => by simp [ht.1] at hstop) rfl rfl
  · cases h; exact hstay (fun ht => ht.2.1 hdisc) rfl rfl
  · cases h
    exact .takeOver m _ ⟨by simpa using hstop, hdisc, hround, hlt⟩ rfl rfl
  · cases h; exact hstay (fun ht => hlt ht.2.2.2) rfl rfl
  · cases h; exact hstay (fun ht => hround ht.2.2.1) rfl rfl

theorem handleStop_move (pid : ℕ) :
    Move c (.stop pid) (c.handleStop pid).1 (indicationsOf (c.handleStop pid).2) := by
  have hstop : ∀ d : MultiPaxosLeaderComp, d.stopTimer.currentBallot = d.currentBallot ∧
      d.stopTimer.leader = d.leader := by
    intro d
    unfold stopTimer
    split <;> exact ⟨rfl, rfl⟩
  obtain ⟨h1, h2⟩ := hstop { c with disconnectedPeers := [] }
  have hnil : indicationsOf (c.handleStop pid).2 = [] := by
    unfold indicationsOf handleStop
    rw [List.filterMap_eq_nil_iff]
    intro o ho
    dsimp only at ho
    split_ifs at ho
    · rcases List.mem_append.mp ho with ho | ho
      · obtain ⟨peer, -, rfl⟩ := List.mem_map.mp ho
        rfl
      · rw [List.mem_singleton.mp ho]
    · obtain ⟨peer, -, rfl⟩ := List.mem_map.mp ho
      rfl
  rw [hnil]
  unfold handleStop
  dsimp only
  split_ifs
  · exact .quiet _ _ h1 h2 (by simp)
  · exact .quiet _ _ h1 h2 (by simp)

/-- **Every event has one of the effects of `Move`.** -/
theorem handle_move {e : MPEvent} {c' : MultiPaxosLeaderComp} {out : List MPOut}
    (h : c.handle e = some (c', out)) : Move c e c' (indicationsOf out) := by
  cases e with
  | timeout id =>
    obtain ⟨⟨_, timers⟩, -, heq⟩ := Option.map_eq_some_iff.mp h
    have hmove := hbTimeout_move (c := c) { c with timers := timers } id rfl rfl
    dsimp only at heq
    rw [heq] at hmove
    exact hmove
  | request sender round =>
    have heq := Option.some.inj h
    unfold handleRequest at heq
    split_ifs at heq
    · cases heq; exact .quiet _ _ rfl rfl (by simp)
    · cases heq; exact .quiet _ _ rfl rfl (by simp)
  | reply m => exact handleReply_move (Option.some.inj h)
  | stop pid =>
    have hmove := handleStop_move (c := c) pid
    rw [Option.some.inj h] at hmove
    exact hmove
  | peerStop pid =>
    simp only [handle, handlePeerStop] at h
    split_ifs at h
    · cases h; exact .quiet _ _ rfl rfl (by simp)
    · cases h; exact .quiet _ _ rfl rfl (by simp)
  | partition e =>
    obtain ⟨part, -, heq⟩ := Option.map_eq_some_iff.mp h
    cases heq
    exact .quiet _ _ rfl rfl (by simp)

end MultiPaxosLeaderComp

end OmniPaxosBench.LeaderElection
