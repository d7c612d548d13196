import OmniPaxosBench.LeaderElection.BallotLeaderComp

/-! # View-change leader election: one node

A node follows the leader of its view. When the leader does not answer, it enters the next view and
tells the others (`StartViewChange`); a node that hears of a higher view enters it too. A node that
knows a majority in its view asks the leader of the view to take over (`DoViewChange`), and the leader
does so when a majority has asked, itself included. Both are counted by a bare counter.

View numbers are `u32`s: the one addition reduces modulo `2 ^ 32`. A handler ends in an error where
the code panics. The delays are left out, as in `BallotLeaderComp`.

`Move` lists what an event can do to a node; `handle_move` proves the list complete. -/

namespace OmniPaxosBench.LeaderElection

open OmniPaxosBench.Lib

inductive ViewChangeStatus
  | elected (b : Ballot)
  | candidate (b : Ballot) (counter : ℕ)
  | viewChange (b : Ballot) (counter : ℕ)
  deriving DecidableEq, Repr

/-- The ballot of a status. -/
def ViewChangeStatus.ballot : ViewChangeStatus → Ballot
  | .elected b | .candidate b _ | .viewChange b _ => b

inductive VRMsg
  | startViewChange (b : Ballot) (pid : ℕ)
  | doViewChange (b : Ballot) (pid : ℕ)
  deriving DecidableEq, Repr

/-- What a node sends, and the indications it triggers. -/
inductive VROut
  | hbRequest (peer round : ℕ)
  | hbReply (peer : ℕ) (m : HeartbeatReply)
  | vr (peer : ℕ) (m : VRMsg)
  | peerStop (peer pid : ℕ)
  | indication (l : Leader)
  /-- The answer to the `Stop` ask. -/
  | stopReply
  deriving DecidableEq, Repr

/-- The panics. -/
inductive VRPanic
  /-- `new_hb_round` without an elected leader. -/
  | noElectedLeader
  /-- `new_hb_round` with a leader that is not in `views`. -/
  | leaderNotInViews
  /-- `DoViewChange` to a leader that is not in `views`. -/
  | candidateNotInViews
  | duplicateStop
  | noStopAsk
  deriving DecidableEq, Repr

structure VRLeaderElectionComp extends Partition where
  pid : ℕ
  views : List ℕ
  viewNumber : ℕ
  hbRound : ℕ
  leaderIsAlive : Bool
  viewchangeStatus : ViewChangeStatus
  latestBallotAsLeader : Ballot
  majority : ℕ
  timer : Option (Timer Ballot)
  stopped : Bool
  stoppedPeers : List ℕ
  /-- A `Stop` ask is waiting for its answer. -/
  stopAsk : Bool
  /-- The timers that are scheduled and not cancelled, with the ballot they were started for. -/
  timers : Timers Ballot

/-- What can happen to a node. -/
inductive VREvent
  | start
  | timeout (id : ℕ)
  | request (sender round : ℕ)
  | reply (m : HeartbeatReply)
  | vr (m : VRMsg)
  | stop (pid : ℕ)
  | peerStop (pid : ℕ)
  | partition (e : PartitionEvent)
  deriving DecidableEq, Repr

namespace VRLeaderElectionComp

/-- `VRLeaderElectionComp::with`. -/
def new (views : List ℕ) (pid : ℕ) : VRLeaderElectionComp where
  pid := pid
  majority := views.length / 2 + 1
  views := views
  viewNumber := 0
  hbRound := 0
  leaderIsAlive := false
  viewchangeStatus := .elected default
  latestBallotAsLeader := default
  timer := none
  stopped := false
  stoppedPeers := []
  stopAsk := false
  timers := .empty

/-- The state and messages after a handler, or a panic. -/
abbrev Result := Except VRPanic (VRLeaderElectionComp × List VROut)

variable (c : VRLeaderElectionComp)

def startTimer (b : Ballot) : VRLeaderElectionComp :=
  { c with timers := c.timers.schedule b, timer := some (c.timers.handle b) }

def stopTimer : VRLeaderElectionComp :=
  match c.timer with
  | some t => { c with timer := none, timers := c.timers.cancel t }
  | none => c

def newHbRound : Result :=
  let c := { c with hbRound := (c.hbRound + 1) % 2 ^ 32 }
  match c.viewchangeStatus with
  | .elected leaderBallot =>
    let c := { c with leaderIsAlive := false }
    match c.views.find? fun x => x = leaderBallot.pid with
    | some leader => .ok (c.startTimer leaderBallot, [.hbRequest leader c.hbRound])
    | none => .error .leaderNotInViews
  | _ => .error .noElectedLeader

def getNextView : VRLeaderElectionComp × Ballot :=
  let c := { c with viewNumber := (c.viewNumber + 1) % 2 ^ 32 }
  let candidate := c.views.getD (c.viewNumber % c.views.length) 0
  (c, ⟨c.viewNumber, candidate⟩)

/-- Tell all others of the view of `b`. -/
def startViewChange (b : Ballot) : List VROut :=
  (c.views.filter (· ≠ c.pid)).map fun peer => .vr peer (.startViewChange b c.pid)

def hbTimeout (b : Ballot) : Result :=
  match c.viewchangeStatus with
  | .elected l =>
    if l = b then
      if c.leaderIsAlive then c.newHbRound
      else
        let (c, b) := c.getNextView
        .ok ({ c with viewchangeStatus := .viewChange b 1 }, c.startViewChange b)
    else .ok (c, [])
  | _ => .ok (c, [])

/-- Enter the view of `b`. -/
def adopt (b : Ballot) : VRLeaderElectionComp × List VROut :=
  ({ c with viewNumber := b.n, viewchangeStatus := .viewChange b 1 }, c.startViewChange b)

def handleStartViewChange (b : Ballot) (sender : ℕ) : Result :=
  if sender ∈ c.disconnectedPeers then .ok (c, [])
  else match c.viewchangeStatus with
    | .elected l => if b.n > l.n then .ok (c.adopt b) else .ok (c, [])
    | .candidate l _ => if b.n > l.n then .ok (c.adopt b) else .ok (c, [])
    | .viewChange l counter =>
      if b.n > l.n then .ok (c.adopt b)
      else if b = l then
        let newCounter := counter + 1
        if newCounter = c.majority then
          if b.pid = c.pid then .ok ({ c with viewchangeStatus := .candidate b 1 }, [])
          else match c.views.find? fun x => x = b.pid with
            | some leader =>
              let c := { c with viewchangeStatus := .elected l }
              c.stopTimer.newHbRound.map fun (c, out) => (c, .vr leader (.doViewChange b c.pid) :: out)
            | none => .error .candidateNotInViews
        else .ok ({ c with viewchangeStatus := .viewChange b newCounter }, [])
      else .ok (c, [])

def handleDoViewChange (b : Ballot) (sender : ℕ) : Result :=
  if sender ∈ c.disconnectedPeers then .ok (c, [])
  else match c.viewchangeStatus with
    | .candidate l counter =>
      if l = b then
        let newCounter := counter + 1
        if newCounter = c.majority then
          let c := c.stopTimer
          .ok ({ c with
              viewchangeStatus := .elected l
              leaderIsAlive := true
              latestBallotAsLeader := l }, [.indication ⟨c.pid, l⟩])
        else .ok ({ c with viewchangeStatus := .candidate l newCounter }, [])
      else .ok (c, [])
    | _ => .ok (c, [])

def handleRequest (sender round : ℕ) : Result :=
  if c.stopped then .ok (c, [])
  else .ok (c, [.hbReply sender ⟨round, c.latestBallotAsLeader, true⟩])

def handleReply (m : HeartbeatReply) : Result :=
  if c.stopped then .ok (c, [])
  else if m.ballot.pid ∈ c.disconnectedPeers then .ok (c, [])
  else match c.viewchangeStatus with
    | .elected b => if b = m.ballot then .ok ({ c with leaderIsAlive := true }, []) else .ok (c, [])
    | _ => .ok (c, [])

/-- `receive_local`. -/
def handleStop (pid : ℕ) : Result :=
  let c := { c with disconnectedPeers := [] }
  let c := c.stopTimer
  let out := (c.views.filter (· ≠ c.pid)).map fun peer => .peerStop peer pid
  let c := { c with stopped := true }
  if c.stoppedPeers.length = c.views.length - 1 then .ok (c, out ++ [.stopReply])
  else .ok ({ c with stopAsk := true }, out)

def handlePeerStop (pid : ℕ) : Result :=
  if pid ∈ c.stoppedPeers then .error .duplicateStop
  else
    let c := { c with stoppedPeers := c.stoppedPeers ++ [pid] }
    if c.stopped ∧ c.stoppedPeers.length = c.views.length - 1 then
      if c.stopAsk then .ok ({ c with stopAsk := false }, [.stopReply]) else .error .noStopAsk
    else .ok (c, [])

/-- `on_start`. -/
def onStart : Result := c.hbTimeout default

/-- One event; `none` if it cannot happen. -/
def handle : VREvent → Option Result
  | .start => some c.onStart
  | .timeout id => (c.timers.fire id).map fun (b, timers) => { c with timers := timers }.hbTimeout b
  | .request sender round => some (c.handleRequest sender round)
  | .reply m => some (c.handleReply m)
  | .vr (.startViewChange b sender) => some (c.handleStartViewChange b sender)
  | .vr (.doViewChange b sender) => some (c.handleDoViewChange b sender)
  | .stop pid => some (c.handleStop pid)
  | .peerStop pid => some (c.handlePeerStop pid)
  | .partition e =>
    (c.toPartition.handlePartition e).map fun s => .ok ({ c with toPartition := s }, [])

/-! ### What an event can do -/

/-- Neither an indication nor a message of the view change. -/
def IsNote : VROut → Prop
  | .indication _ | .vr _ _ => False
  | _ => True

/-- The constants of a node. -/
structure Frame (c c' : VRLeaderElectionComp) : Prop where
  pid : c'.pid = c.pid
  views : c'.views = c.views
  majority : c'.majority = c.majority

/-- The ballot of the view after the present one. -/
def nextBallot : Ballot :=
  ⟨(c.viewNumber + 1) % 2 ^ 32, c.views.getD ((c.viewNumber + 1) % 2 ^ 32 % c.views.length) 0⟩

theorem getNextView_eq (c : VRLeaderElectionComp) :
    c.getNextView = ({ c with viewNumber := c.nextBallot.n }, c.nextBallot) := rfl

/-- The effects of an event on a node: nothing of interest; a new view; a `StartViewChange` counted,
and the two things that can follow from a majority of them; a `DoViewChange` counted, and the
takeover that follows from a majority of them. -/
inductive Move (c : VRLeaderElectionComp) : VREvent → VRLeaderElectionComp → List VROut → Prop
  | quiet (e : VREvent) (c' : VRLeaderElectionComp) (out : List VROut) (frame : Frame c c')
      (number : c'.viewNumber = c.viewNumber) (status : c'.viewchangeStatus = c.viewchangeStatus)
      (outs : ∀ o ∈ out, IsNote o) : Move c e c' out
  | enter (e : VREvent) (c' : VRLeaderElectionComp) (b : Ballot) (frame : Frame c c')
      (cause : (b = c.nextBallot ∧ ∀ m, e ≠ .vr m) ∨
        ∃ sender, e = .vr (.startViewChange b sender) ∧ c.viewchangeStatus.ballot.n < b.n)
      (number : c'.viewNumber = b.n) (status : c'.viewchangeStatus = .viewChange b 1) :
      Move c e c' (c.startViewChange b)
  | count (c' : VRLeaderElectionComp) (b : Ballot) (sender k : ℕ) (frame : Frame c c')
      (had : c.viewchangeStatus = .viewChange b k) (fewer : k + 1 ≠ c.majority)
      (number : c'.viewNumber = c.viewNumber) (status : c'.viewchangeStatus = .viewChange b (k + 1)) :
      Move c (.vr (.startViewChange b sender)) c' []
  | stand (c' : VRLeaderElectionComp) (b : Ballot) (sender k : ℕ) (frame : Frame c c')
      (had : c.viewchangeStatus = .viewChange b k) (enough : k + 1 = c.majority)
      (own : b.pid = c.pid) (number : c'.viewNumber = c.viewNumber)
      (status : c'.viewchangeStatus = .candidate b 1) :
      Move c (.vr (.startViewChange b sender)) c' []
  | follow (c' : VRLeaderElectionComp) (b : Ballot) (sender k : ℕ) (out : List VROut)
      (frame : Frame c c') (had : c.viewchangeStatus = .viewChange b k) (enough : k + 1 = c.majority)
      (other : b.pid ≠ c.pid) (number : c'.viewNumber = c.viewNumber)
      (status : c'.viewchangeStatus = .elected b) (outs : ∀ o ∈ out, IsNote o) :
      Move c (.vr (.startViewChange b sender)) c' (.vr b.pid (.doViewChange b c.pid) :: out)
  | vote (c' : VRLeaderElectionComp) (b : Ballot) (sender k : ℕ) (frame : Frame c c')
      (had : c.viewchangeStatus = .candidate b k) (fewer : k + 1 ≠ c.majority)
      (number : c'.viewNumber = c.viewNumber) (status : c'.viewchangeStatus = .candidate b (k + 1)) :
      Move c (.vr (.doViewChange b sender)) c' []
  | win (c' : VRLeaderElectionComp) (b : Ballot) (sender k : ℕ) (frame : Frame c c')
      (had : c.viewchangeStatus = .candidate b k) (enough : k + 1 = c.majority)
      (number : c'.viewNumber = c.viewNumber) (status : c'.viewchangeStatus = .elected b) :
      Move c (.vr (.doViewChange b sender)) c' [.indication ⟨c.pid, b⟩]

variable {c} {c' : VRLeaderElectionComp} {out : List VROut} {e : VREvent} {b : Ballot} {sender : ℕ}

theorem Frame.refl (c : VRLeaderElectionComp) : Frame c c := ⟨rfl, rfl, rfl⟩

theorem Move.stay (c : VRLeaderElectionComp) (e : VREvent) : Move c e c [] :=
  .quiet e c [] (Frame.refl c) rfl rfl fun o ho => by cases ho

/-- `stopTimer` changes the timers only. -/
theorem stopTimer_eq (c : VRLeaderElectionComp) :
    ∃ t T, c.stopTimer = { c with timer := t, timers := T } := by
  unfold stopTimer
  split
  · exact ⟨_, _, rfl⟩
  · exact ⟨_, _, rfl⟩

theorem find_pid {views : List ℕ} {pid leader : ℕ} (h : (views.find? fun x => x = pid) = some leader) :
    leader = pid := by
  have := List.find?_some h
  exact of_decide_eq_true this

theorem find_pid_of_mem {views : List ℕ} {pid : ℕ} (h : pid ∈ views) :
    (views.find? fun x => x = pid) = some pid := by
  have hsome : (views.find? fun x => x = pid).isSome := by
    rw [List.find?_isSome]
    exact ⟨pid, h, decide_eq_true rfl⟩
  obtain ⟨leader, hl⟩ := Option.isSome_iff_exists.mp hsome
  rw [hl, find_pid hl]

/-- A new heartbeat round keeps the status; it goes wrong only without an elected leader in `views`. -/
theorem newHbRound_ok (h : c.newHbRound = .ok (c', out)) : Frame c c' ∧ c'.viewNumber = c.viewNumber ∧
    c'.viewchangeStatus = c.viewchangeStatus ∧ ∀ o ∈ out, IsNote o := by
  unfold newHbRound at h
  dsimp only at h
  split at h
  · split at h
    · cases h
      refine ⟨⟨rfl, rfl, rfl⟩, rfl, rfl, fun o ho => ?_⟩
      rw [List.mem_singleton.mp ho]
      trivial
    · cases h
  · cases h

theorem newHbRound_error {p : VRPanic} (h : c.newHbRound = .error p) :
    (∀ l, c.viewchangeStatus ≠ .elected l) ∨
      ∃ l, c.viewchangeStatus = .elected l ∧ l.pid ∉ c.views := by
  unfold newHbRound at h
  dsimp only at h
  split at h
  · next l hl =>
    split at h
    · cases h
    · next hfind =>
      refine Or.inr ⟨l, hl, fun hmem => ?_⟩
      have := List.find?_eq_none.mp hfind l.pid hmem
      simp at this
  · next hne => exact Or.inl fun l hl => hne l hl

theorem hbTimeout_move {c₀ : VRLeaderElectionComp} (he : ∀ m, e ≠ .vr m) (hframe : Frame c c₀)
    (hnumber : c₀.viewNumber = c.viewNumber) (hstatus : c₀.viewchangeStatus = c.viewchangeStatus)
    (h : c₀.hbTimeout b = .ok (c', out)) : Move c e c' out := by
  have hstay : Move c e c₀ [] := .quiet e c₀ [] hframe hnumber hstatus fun o ho => by cases ho
  unfold hbTimeout at h
  split at h
  · split_ifs at h with hl halive
    · obtain ⟨hf, hn, hs, ho⟩ := newHbRound_ok h
      exact .quiet e c' out ⟨hf.pid.trans hframe.pid, hf.views.trans hframe.views,
        hf.majority.trans hframe.majority⟩ (hn.trans hnumber) (hs.trans hstatus) ho
    · have hnext : c₀.nextBallot = c.nextBallot := by
        unfold nextBallot
        rw [hnumber, hframe.views]
      have hout : ∀ d : VRLeaderElectionComp, d.views = c.views → d.pid = c.pid →
          d.startViewChange c.nextBallot = c.startViewChange c.nextBallot := by
        intro d hviews hpid
        unfold startViewChange
        rw [hviews, hpid]
      rw [getNextView_eq, hnext] at h
      dsimp only at h
      rw [hout { c₀ with viewNumber := c.nextBallot.n } hframe.views hframe.pid] at h
      cases h
      exact .enter e _ c.nextBallot ⟨hframe.pid, hframe.views, hframe.majority⟩ (Or.inl ⟨rfl, he⟩) rfl rfl
    · cases h
      exact hstay
  · cases h
    exact hstay

/-- A `StartViewChange` does nothing, announces a higher view, or is counted in the present view, where
it may be the one that makes a majority. -/
theorem handleStartViewChange_cases (h : c.handleStartViewChange b sender = .ok (c', out)) :
    (c' = c ∧ out = []) ∨ sender ∉ c.disconnectedPeers ∧
      ((c.viewchangeStatus.ballot.n < b.n ∧ (c', out) = c.adopt b) ∨
      ∃ k, c.viewchangeStatus = .viewChange b k ∧
        ((k + 1 ≠ c.majority ∧ c' = { c with viewchangeStatus := .viewChange b (k + 1) } ∧ out = []) ∨
        (k + 1 = c.majority ∧ b.pid = c.pid ∧ c' = { c with viewchangeStatus := .candidate b 1 } ∧
          out = []) ∨
        (k + 1 = c.majority ∧ b.pid ≠ c.pid ∧ b.pid ∈ c.views ∧ ∃ out',
          { c with viewchangeStatus := .elected b }.stopTimer.newHbRound = .ok (c', out') ∧
          out = .vr b.pid (.doViewChange b c'.pid) :: out'))) := by
  unfold handleStartViewChange at h
  by_cases hdis : sender ∈ c.disconnectedPeers
  · rw [if_pos hdis] at h
    cases h
    exact Or.inl ⟨rfl, rfl⟩
  rw [if_neg hdis] at h
  split at h
  · next l hl =>
    split_ifs at h with hlt
    · exact Or.inr ⟨hdis, Or.inl ⟨by rw [hl]; exact hlt, (Except.ok.inj h).symm⟩⟩
    · cases h
      exact Or.inl ⟨rfl, rfl⟩
  · next l k hl =>
    split_ifs at h with hlt
    · exact Or.inr ⟨hdis, Or.inl ⟨by rw [hl]; exact hlt, (Except.ok.inj h).symm⟩⟩
    · cases h
      exact Or.inl ⟨rfl, rfl⟩
  · next l k hl =>
    dsimp only at h
    split_ifs at h with hlt heq hmaj hown
    · exact Or.inr ⟨hdis, Or.inl ⟨by rw [hl]; exact hlt, (Except.ok.inj h).symm⟩⟩
    · subst heq
      cases h
      exact Or.inr ⟨hdis, Or.inr ⟨k, hl, Or.inr (Or.inl ⟨hmaj, hown, rfl, rfl⟩)⟩⟩
    · subst heq
      split at h
      · next leader hfind =>
        have hin := List.mem_of_find?_eq_some hfind
        rw [find_pid hfind] at h hin
        cases hr : { c with viewchangeStatus := .elected b }.stopTimer.newHbRound with
        | error p => rw [hr] at h; cases h
        | ok x =>
          rw [hr] at h
          cases h
          exact Or.inr ⟨hdis, Or.inr ⟨k, hl, Or.inr (Or.inr ⟨hmaj, hown, hin, x.2, rfl, rfl⟩)⟩⟩
      · cases h
    · subst heq
      cases h
      exact Or.inr ⟨hdis, Or.inr ⟨k, hl, Or.inl ⟨hmaj, rfl, rfl⟩⟩⟩
    · cases h
      exact Or.inl ⟨rfl, rfl⟩

/-- A `DoViewChange` does nothing, or is a vote for the candidate, perhaps the decisive one. -/
theorem handleDoViewChange_cases (h : c.handleDoViewChange b sender = .ok (c', out)) :
    (c' = c ∧ out = []) ∨ sender ∉ c.disconnectedPeers ∧ ∃ k, c.viewchangeStatus = .candidate b k ∧
      ((k + 1 ≠ c.majority ∧ c' = { c with viewchangeStatus := .candidate b (k + 1) } ∧ out = []) ∨
      (k + 1 = c.majority ∧ c' = { c.stopTimer with
          viewchangeStatus := .elected b
          leaderIsAlive := true
          latestBallotAsLeader := b } ∧ out = [.indication ⟨c.pid, b⟩])) := by
  unfold handleDoViewChange at h
  split_ifs at h with hdis
  · cases h
    exact Or.inl ⟨rfl, rfl⟩
  · split at h
    · next l k hl =>
      dsimp only at h
      split_ifs at h with heq hmaj
      · subst heq
        cases h
        obtain ⟨t, T, hstop⟩ := stopTimer_eq c
        exact Or.inr ⟨hdis, k, hl, Or.inr ⟨hmaj, rfl, by rw [hstop]⟩⟩
      · subst heq
        cases h
        exact Or.inr ⟨hdis, k, hl, Or.inl ⟨hmaj, rfl, rfl⟩⟩
      · cases h
        exact Or.inl ⟨rfl, rfl⟩
    · cases h
      exact Or.inl ⟨rfl, rfl⟩

/-- A stop: the others are told, and perhaps the client. -/
theorem handleStop_cases {pid : ℕ} (h : c.handleStop pid = .ok (c', out)) :
    (∃ ask, c' = { ({ c with disconnectedPeers := [] } : VRLeaderElectionComp).stopTimer with
        stopped := true
        stopAsk := ask }) ∧ ∀ o ∈ out, (∃ peer, o = .peerStop peer pid) ∨ o = .stopReply := by
  have htold : ∀ (views : List ℕ), ∀ o ∈ views.map (fun peer => VROut.peerStop peer pid),
      (∃ peer, o = .peerStop peer pid) ∨ o = .stopReply := by
    intro views o ho
    obtain ⟨peer, -, rfl⟩ := List.mem_map.mp ho
    exact Or.inl ⟨peer, rfl⟩
  unfold handleStop at h
  dsimp only at h
  split_ifs at h
  · cases h
    refine ⟨⟨_, rfl⟩, fun o ho => ?_⟩
    rcases List.mem_append.mp ho with ho | ho
    · exact htold _ o ho
    · exact Or.inr (List.mem_singleton.mp ho)
  · cases h
    exact ⟨⟨_, rfl⟩, htold _⟩

theorem handlePeerStop_cases {pid : ℕ} (h : c.handlePeerStop pid = .ok (c', out)) :
    (∃ ask, c' = { c with stoppedPeers := c.stoppedPeers ++ [pid], stopAsk := ask }) ∧
      ∀ o ∈ out, o = .stopReply := by
  unfold handlePeerStop at h
  dsimp only at h
  split_ifs at h
  · cases h
    exact ⟨⟨false, rfl⟩, fun o ho => List.mem_singleton.mp ho⟩
  · cases h
    exact ⟨⟨c.stopAsk, rfl⟩, nofun⟩

theorem handleReply_cases {m : HeartbeatReply} (h : c.handleReply m = .ok (c', out)) :
    (∃ alive, c' = { c with leaderIsAlive := alive }) ∧ out = [] := by
  unfold handleReply at h
  split_ifs at h
  · cases h
    exact ⟨⟨c.leaderIsAlive, rfl⟩, rfl⟩
  · cases h
    exact ⟨⟨c.leaderIsAlive, rfl⟩, rfl⟩
  · split at h
    · split_ifs at h
      · cases h
        exact ⟨⟨true, rfl⟩, rfl⟩
      · cases h
        exact ⟨⟨c.leaderIsAlive, rfl⟩, rfl⟩
    · cases h
      exact ⟨⟨c.leaderIsAlive, rfl⟩, rfl⟩

theorem handleStartViewChange_move (h : c.handleStartViewChange b sender = .ok (c', out)) :
    Move c (.vr (.startViewChange b sender)) c' out := by
  rcases handleStartViewChange_cases h with ⟨rfl, rfl⟩ | ⟨-, ⟨hlt, heq⟩ | ⟨k, hl, hcases⟩⟩
  · exact Move.stay c' _
  · cases heq
    exact .enter _ _ b ⟨rfl, rfl, rfl⟩ (Or.inr ⟨sender, rfl, hlt⟩) rfl rfl
  · rcases hcases with ⟨hmaj, rfl, rfl⟩ | ⟨hmaj, hown, rfl, rfl⟩ | ⟨hmaj, hown, -, out', hr, rfl⟩
    · exact .count _ b sender k ⟨rfl, rfl, rfl⟩ hl hmaj rfl rfl
    · exact .stand _ b sender k ⟨rfl, rfl, rfl⟩ hl hmaj hown rfl rfl
    · -- the follower: the timer is replaced and a heartbeat round begins
      obtain ⟨t, T, hstop⟩ := stopTimer_eq { c with viewchangeStatus := .elected b }
      rw [hstop] at hr
      obtain ⟨hf, hn, hs, ho⟩ := newHbRound_ok hr
      rw [hf.pid]
      exact .follow c' b sender k out' ⟨hf.pid, hf.views, hf.majority⟩ hl hmaj hown hn hs ho

theorem handleDoViewChange_move (h : c.handleDoViewChange b sender = .ok (c', out)) :
    Move c (.vr (.doViewChange b sender)) c' out := by
  rcases handleDoViewChange_cases h with ⟨rfl, rfl⟩ | ⟨-, k, hl, ⟨hmaj, rfl, rfl⟩ | ⟨hmaj, rfl, rfl⟩⟩
  · exact Move.stay c' _
  · exact .vote _ b sender k ⟨rfl, rfl, rfl⟩ hl hmaj rfl rfl
  · obtain ⟨t, T, hstop⟩ := stopTimer_eq c
    rw [hstop]
    exact .win _ b sender k ⟨rfl, rfl, rfl⟩ hl hmaj rfl rfl

theorem handleStop_move {pid : ℕ} (h : c.handleStop pid = .ok (c', out)) :
    Move c (.stop pid) c' out := by
  obtain ⟨⟨ask, rfl⟩, hout⟩ := handleStop_cases h
  obtain ⟨t, T, hstop⟩ := stopTimer_eq { c with disconnectedPeers := [] }
  rw [hstop]
  refine .quiet _ _ _ ⟨rfl, rfl, rfl⟩ rfl rfl fun o ho => ?_
  rcases hout o ho with ⟨peer, rfl⟩ | rfl
  · trivial
  · trivial

theorem handlePeerStop_move {pid : ℕ} (h : c.handlePeerStop pid = .ok (c', out)) :
    Move c (.peerStop pid) c' out := by
  obtain ⟨⟨ask, rfl⟩, hout⟩ := handlePeerStop_cases h
  refine .quiet _ _ _ ⟨rfl, rfl, rfl⟩ rfl rfl fun o ho => ?_
  rw [hout o ho]
  trivial

theorem handleReply_move {m : HeartbeatReply} (h : c.handleReply m = .ok (c', out)) :
    Move c (.reply m) c' out := by
  obtain ⟨⟨alive, rfl⟩, rfl⟩ := handleReply_cases h
  exact .quiet _ _ _ ⟨rfl, rfl, rfl⟩ rfl rfl nofun

/-- **Every event that does not panic has one of the effects of `Move`.** -/
theorem handle_move (h : c.handle e = some (.ok (c', out))) : Move c e c' out := by
  cases e with
  | start => exact hbTimeout_move (by simp) (Frame.refl c) rfl rfl (Option.some.inj h)
  | timeout id =>
    obtain ⟨⟨b, timers⟩, -, heq⟩ := Option.map_eq_some_iff.mp h
    have hframe : Frame c { c with timers := timers } := ⟨rfl, rfl, rfl⟩
    exact hbTimeout_move (by simp) hframe rfl rfl heq
  | request sender round =>
    have heq := Option.some.inj h
    unfold handleRequest at heq
    split_ifs at heq
    · cases heq; exact Move.stay c _
    · cases heq
      refine .quiet _ _ _ (Frame.refl c) rfl rfl fun o ho => ?_
      rw [List.mem_singleton.mp ho]; trivial
  | reply m => exact handleReply_move (Option.some.inj h)
  | vr m =>
    cases m with
    | startViewChange b sender => exact handleStartViewChange_move (Option.some.inj h)
    | doViewChange b sender => exact handleDoViewChange_move (Option.some.inj h)
  | stop pid => exact handleStop_move (Option.some.inj h)
  | peerStop pid => exact handlePeerStop_move (Option.some.inj h)
  | partition e =>
    obtain ⟨part, -, heq⟩ := Option.map_eq_some_iff.mp h
    cases heq
    exact .quiet _ _ _ ⟨rfl, rfl, rfl⟩ rfl rfl fun o ho => by cases ho

theorem Move.frame (hm : Move c e c' out) : Frame c c' := by
  cases hm <;> assumption

/-- A node that hears of a higher view enters it. -/
theorem handle_higher (hconn : sender ∉ c.disconnectedPeers) (hlt : c.viewchangeStatus.ballot.n < b.n) :
    c.handle (.vr (.startViewChange b sender)) = some (.ok (c.adopt b)) := by
  show some (c.handleStartViewChange b sender) = _
  unfold handleStartViewChange
  rw [if_neg hconn]
  cases hs : c.viewchangeStatus <;> rw [hs] at hlt <;> exact congrArg some (if_pos hlt)

/-! ### Panics -/

theorem hbTimeout_error {p : VRPanic} (h : c.hbTimeout b = .error p) :
    ∃ l, c.viewchangeStatus = .elected l ∧ c.leaderIsAlive = true ∧ l.pid ∉ c.views := by
  unfold hbTimeout at h
  split at h
  · next l hl =>
    split_ifs at h with heq halive
    · rcases newHbRound_error h with hne | ⟨l', hl', hmem⟩
      · exact absurd hl (hne l)
      · rw [hl] at hl'
        cases hl'
        exact ⟨l, hl, halive, hmem⟩
  · cases h

/-- A node that is elected by a `StartViewChange` finds itself in `views`. -/
theorem handleStartViewChange_panic {p : VRPanic} {sender : ℕ}
    (h : c.handleStartViewChange b sender = .error p) : p ≠ .noElectedLeader ∧ p ≠ .leaderNotInViews := by
  unfold handleStartViewChange at h
  by_cases hdis : sender ∈ c.disconnectedPeers
  · rw [if_pos hdis] at h
    cases h
  rw [if_neg hdis] at h
  split at h
  · split_ifs at h
  · split_ifs at h
  · dsimp only at h
    split_ifs at h with hlt hb hmaj hown
    subst hb
    split at h
    · next leader hfind =>
      exfalso
      obtain ⟨t, T, hstop⟩ := stopTimer_eq { c with viewchangeStatus := .elected b }
      rw [hstop] at h
      cases hr : newHbRound { c with viewchangeStatus := .elected b, timer := t, timers := T } with
      | ok x => rw [hr] at h; cases h
      | error p' =>
        rcases newHbRound_error hr with hne | ⟨l', hl', hmem⟩
        · exact hne b rfl
        · cases hl'
          have hin := List.mem_of_find?_eq_some hfind
          rw [find_pid hfind] at hin
          exact hmem hin
    · cases h
      exact ⟨nofun, nofun⟩

/-- The two panics of `new_hb_round` can only be reached by a node whose elected leader answers and is
not in `views`. -/
theorem handle_panic {p : VRPanic} (h : c.handle e = some (.error p))
    (hp : p = .noElectedLeader ∨ p = .leaderNotInViews) :
    ∃ l, c.viewchangeStatus = .elected l ∧ c.leaderIsAlive = true ∧ l.pid ∉ c.views := by
  cases e with
  | start => exact hbTimeout_error (Option.some.inj h)
  | timeout id =>
    obtain ⟨⟨b, timers⟩, -, heq⟩ := Option.map_eq_some_iff.mp h
    obtain ⟨l, hl⟩ := @hbTimeout_error { c with timers := timers } b p heq
    exact ⟨l, hl⟩
  | request sender round =>
    have heq := Option.some.inj h
    unfold handleRequest at heq
    split_ifs at heq
  | reply m =>
    have heq := Option.some.inj h
    unfold handleReply at heq
    split_ifs at heq
    split at heq
    · split_ifs at heq
    · cases heq
  | vr m =>
    cases m with
    | startViewChange b sender =>
      obtain ⟨h1, h2⟩ := handleStartViewChange_panic (Option.some.inj h)
      exact absurd hp (not_or.mpr ⟨h1, h2⟩)
    | doViewChange b sender =>
      have heq := Option.some.inj h
      unfold handleDoViewChange at heq
      split_ifs at heq
      split at heq
      · dsimp only at heq
        split_ifs at heq
      · cases heq
  | stop pid =>
    have heq := Option.some.inj h
    unfold handleStop at heq
    dsimp only at heq
    split_ifs at heq
  | peerStop pid =>
    have heq := Option.some.inj h
    unfold handlePeerStop at heq
    dsimp only at heq
    split_ifs at heq
    all_goals (cases heq; rcases hp with hp | hp <;> cases hp)
  | partition e =>
    obtain ⟨part, -, heq⟩ := Option.map_eq_some_iff.mp h
    cases heq

end VRLeaderElectionComp

end OmniPaxosBench.LeaderElection
