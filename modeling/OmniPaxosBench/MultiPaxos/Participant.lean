import OmniPaxosBench.Lib.Timers
import OmniPaxosBench.Partition
import Mathlib.Data.Prod.Lex

/-! # Multi-Paxos: the election participant

A participant is a leader or a follower. A leader pings the others whenever its periodic ping timer is
due; a follower that hears no ping until its no-ping timer is due enters the next round as its leader.
Pings are compared by round and leader index. When it is stopped, a participant cancels its timers and
waits until all others have stopped; the ping handler does not look at the flag.

Both timers keep their handle. The ping timer is periodic and stays scheduled when it is due, the
no-ping timer is a one-shot timer. A handler returns `none` where the code panics.

`Move` lists what an event can do to a participant; `handle_move` proves the list complete. -/

namespace OmniPaxosBench.MultiPaxos

open OmniPaxosBench.Lib

/-- The states of a participant. -/
inductive ElectionState
  | leader
  | follower
  deriving DecidableEq, Repr

structure Ping where
  round : ℕ
  leaderIndex : ℕ
  deriving DecidableEq, Repr

/-- The ballot of a ping, compared by the round first. -/
def Ping.ballot (m : Ping) : ℕ ×ₗ ℕ := toLex (m.round, m.leaderIndex)

/-- The closures a participant leaves with the timer. -/
inductive ElectionTimeout
  | ping
  | noPing
  deriving DecidableEq, Repr

/-- What a participant sends, and the indications it triggers. -/
inductive ParticipantOut
  | ping (peer : ℕ) (m : Ping)
  | peerStop (peer pid : ℕ)
  | indication (leader : ℕ)
  /-- The answer to the `Stop` ask. -/
  | stopReply
  deriving DecidableEq, Repr

structure Participant extends Partition where
  index : ℕ
  otherParticipants : List ℕ
  round : ℕ
  leaderIndex : ℕ
  pingTimer : Option (Timer ElectionTimeout)
  noPingTimer : Option (Timer ElectionTimeout)
  state : ElectionState
  stopped : Bool
  stoppedPeers : List ℕ
  /-- A `Stop` ask is waiting for its answer. -/
  stopAsk : Bool
  /-- The timers that are scheduled and not cancelled. -/
  timers : Timers ElectionTimeout

/-- What can happen to a participant. -/
inductive ParticipantEvent
  | timeout (id : ℕ)
  | ping (m : Ping)
  | stop (pid : ℕ)
  | peerStop (pid : ℕ)
  | partition (e : PartitionEvent)
  deriving DecidableEq, Repr

namespace Participant

/-- `Participant::with`. -/
def new (peers : List ℕ) (pid initialLeaderIndex : ℕ) : Participant where
  index := pid
  otherParticipants := peers
  round := 0
  leaderIndex := initialLeaderIndex
  pingTimer := none
  noPingTimer := none
  state := if pid = initialLeaderIndex then .leader else .follower
  stopped := false
  stoppedPeers := []
  stopAsk := false
  timers := .empty

variable (p : Participant)

/-- What the participant compares pings with. -/
def ballot : ℕ ×ₗ ℕ := toLex (p.round, p.leaderIndex)

def startPingTimer : Participant :=
  { p with pingTimer := some (p.timers.handle .ping), timers := p.timers.schedule .ping }

def ping (round leaderIndex : ℕ) : List ParticipantOut :=
  p.otherParticipants.map fun peer => .ping peer ⟨round, leaderIndex⟩

def stopPingTimer : Participant :=
  match p.pingTimer with
  | some t => { p with pingTimer := none, timers := p.timers.cancel t }
  | none => p

def startNoPingTimer : Participant :=
  { p with noPingTimer := some (p.timers.handle .noPing), timers := p.timers.schedule .noPing }

def stopNoPingTimer : Participant :=
  match p.noPingTimer with
  | some t => { p with noPingTimer := none, timers := p.timers.cancel t }
  | none => p

def resetNoPingTimer : Participant := p.stopNoPingTimer.startNoPingTimer

def changeState (newState : ElectionState) : Participant × List ParticipantOut :=
  match p.state, newState with
  | .leader, .leader => (p, [])
  | .follower, .follower => (p, [])
  | .follower, .leader =>
    let p := { p.stopNoPingTimer.startPingTimer with state := .leader }
    (p, p.ping p.round p.leaderIndex ++ [.indication p.leaderIndex])
  | .leader, .follower =>
    let p := { p.stopPingTimer.startNoPingTimer with state := .follower }
    (p, [.indication p.leaderIndex])

/-- The closure of the no-ping timer. -/
def noPing : Participant × List ParticipantOut :=
  { p with round := p.round + 1, leaderIndex := p.index }.changeState .leader

def handlePing (m : Ping) : Participant × List ParticipantOut :=
  match p.state with
  | .follower =>
    if m.ballot < p.ballot then (p, [])
    else if m.ballot = p.ballot then (p.resetNoPingTimer, [])
    else ({ p with round := m.round, leaderIndex := m.leaderIndex }.resetNoPingTimer, [])
  | .leader =>
    if m.ballot ≤ p.ballot then (p, [])
    else { p with round := m.round, leaderIndex := m.leaderIndex }.changeState .follower

/-- `on_start`. -/
def onStart : Participant :=
  match p.state with
  | .leader => p.startPingTimer
  | .follower => p.startNoPingTimer

/-- `receive_local`. -/
def handleStop (pid : ℕ) : Participant × List ParticipantOut :=
  let p := { p with disconnectedPeers := [] }
  let p := p.stopPingTimer.stopNoPingTimer
  let out := p.otherParticipants.map fun peer => .peerStop peer pid
  let p := { p with stopped := true }
  if p.stoppedPeers.length = p.otherParticipants.length then (p, out ++ [.stopReply])
  else ({ p with stopAsk := true }, out)

def handlePeerStop (pid : ℕ) : Option (Participant × List ParticipantOut) :=
  if pid ∈ p.stoppedPeers then none
  else
    let p := { p with stoppedPeers := p.stoppedPeers ++ [pid] }
    if p.stopped ∧ p.stoppedPeers.length = p.otherParticipants.length then
      if p.stopAsk then some ({ p with stopAsk := false }, [.stopReply]) else none
    else some (p, [])

/-- A ping from the network. -/
def receivePing (m : Ping) : Participant × List ParticipantOut :=
  if m.leaderIndex ∈ p.disconnectedPeers then (p, []) else p.handlePing m

/-- The timer with handle `id` is due. -/
def handleTimeout (id : ℕ) : Option (Participant × List ParticipantOut) :=
  match p.timers.callbackOf id with
  | some .ping => some (p, p.ping p.round p.index)
  | some .noPing => some { p with timers := p.timers.remove id }.noPing
  | none => none

/-- One event; `none` if it cannot happen. -/
def handle : ParticipantEvent → Option (Participant × List ParticipantOut)
  | .timeout id => p.handleTimeout id
  | .ping m => some (p.receivePing m)
  | .stop pid => some (p.handleStop pid)
  | .peerStop pid => p.handlePeerStop pid
  | .partition e => (p.toPartition.handlePartition e).map fun s => ({ p with toPartition := s }, [])

/-! ### Timers -/

/-- **The live timers** are those whose handle is kept: the ping timer of a leader, the no-ping timer of a
follower. A participant that was not stopped has one. -/
structure TimerInv (p : Participant) : Prop where
  leader : p.state = .leader → p.noPingTimer = none ∧
    ∀ t ∈ p.timers.live, p.pingTimer = some t ∧ t.callback = .ping
  follower : p.state = .follower → p.pingTimer = none ∧
    ∀ t ∈ p.timers.live, p.noPingTimer = some t ∧ t.callback = .noPing
  running : p.stopped = false → p.timers.live ≠ []

variable {p} {p' : Participant} {e : ParticipantEvent} {out : List ParticipantOut} {m : Ping}

theorem stopPingTimer_eq (h : ∀ t ∈ p.timers.live, p.pingTimer = some t) :
    ∃ T, p.stopPingTimer = { p with pingTimer := none, timers := T } ∧ T.live = [] ∧
      T.next = p.timers.next := by
  unfold stopPingTimer
  cases hp : p.pingTimer with
  | some t =>
    rw [hp] at h
    exact ⟨_, rfl, Timers.live_cancel h, rfl⟩
  | none =>
    refine ⟨p.timers, by cases p; cases hp; rfl, ?_, rfl⟩
    rw [hp] at h
    exact List.eq_nil_iff_forall_not_mem.mpr fun t ht => by cases h t ht

theorem stopNoPingTimer_eq (h : ∀ t ∈ p.timers.live, p.noPingTimer = some t) :
    ∃ T, p.stopNoPingTimer = { p with noPingTimer := none, timers := T } ∧ T.live = [] ∧
      T.next = p.timers.next := by
  unfold stopNoPingTimer
  cases hp : p.noPingTimer with
  | some t =>
    rw [hp] at h
    exact ⟨_, rfl, Timers.live_cancel h, rfl⟩
  | none =>
    refine ⟨p.timers, by cases p; cases hp; rfl, ?_, rfl⟩
    rw [hp] at h
    exact List.eq_nil_iff_forall_not_mem.mpr fun t ht => by cases h t ht

/-! ### What an event can do -/

/-- Neither a ping nor an indication. -/
def IsNote : ParticipantOut → Prop
  | .ping _ _ | .indication _ => False
  | _ => True

/-- The constants of a participant. -/
structure Frame (p p' : Participant) : Prop where
  index : p'.index = p.index
  otherParticipants : p'.otherParticipants = p.otherParticipants

/-- The one live timer was just started. -/
def JustStarted (p p' : Participant) (cb : ElectionTimeout) : Prop :=
  p'.timers.live = [⟨p.timers.next, cb⟩] ∧ p'.timers.next = p.timers.next + 1

/-- The effects of an event: nothing of interest; the pings of a leader; a round claimed because no
ping came; a ping that a follower takes note of; a ping that ends the leadership; a stop. -/
inductive Move (p : Participant) : ParticipantEvent → Participant → List ParticipantOut → Prop
  | idle (e : ParticipantEvent) (p' : Participant) (out : List ParticipantOut) (frame : Frame p p')
      (ballot : p'.ballot = p.ballot) (leaderIndex : p'.leaderIndex = p.leaderIndex)
      (state : p'.state = p.state) (stopped : p'.stopped = p.stopped) (timers : p'.timers = p.timers)
      (outs : ∀ o ∈ out, IsNote o) : Move p e p' out
  | tick (id : ℕ) (state : p.state = .leader) (live : p.timers.live ≠ []) :
      Move p (.timeout id) p (p.ping p.round p.index)
  | claim (id : ℕ) (p' : Participant) (frame : Frame p p') (had : p.state = .follower)
      (live : p.timers.live ≠ []) (state : p'.state = .leader) (round : p'.round = p.round + 1)
      (leaderIndex : p'.leaderIndex = p.index) (stopped : p'.stopped = p.stopped)
      (timer : JustStarted p p' .ping) :
      Move p (.timeout id) p' (p.ping (p.round + 1) p.index ++ [.indication p.index])
  | heard (m : Ping) (p' : Participant) (frame : Frame p p') (had : p.state = .follower)
      (ballot : ¬ m.ballot < p.ballot) (state : p'.state = .follower) (round : p'.round = m.round)
      (leaderIndex : p'.leaderIndex = m.leaderIndex) (stopped : p'.stopped = p.stopped)
      (timer : JustStarted p p' .noPing) : Move p (.ping m) p' []
  | yield (m : Ping) (p' : Participant) (frame : Frame p p') (had : p.state = .leader)
      (ballot : p.ballot < m.ballot) (state : p'.state = .follower) (round : p'.round = m.round)
      (leaderIndex : p'.leaderIndex = m.leaderIndex) (stopped : p'.stopped = p.stopped)
      (timer : JustStarted p p' .noPing) : Move p (.ping m) p' [.indication m.leaderIndex]
  | stop (pid : ℕ) (p' : Participant) (out : List ParticipantOut) (frame : Frame p p')
      (ballot : p'.ballot = p.ballot) (leaderIndex : p'.leaderIndex = p.leaderIndex)
      (state : p'.state = p.state) (stopped : p'.stopped = true) (live : p'.timers.live = [])
      (next : p'.timers.next = p.timers.next) (outs : ∀ o ∈ out, IsNote o) : Move p (.stop pid) p' out

/-- A leader becomes a follower. -/
theorem changeState_follower (hinv : ∀ t ∈ p.timers.live, p.pingTimer = some t)
    (hstate : p.state = .leader) : ∃ T, T.live = [⟨p.timers.next, .noPing⟩] ∧ T.next = p.timers.next + 1 ∧
      p.changeState .follower = ({ p with
        pingTimer := none
        noPingTimer := some ⟨p.timers.next, .noPing⟩
        state := .follower
        timers := T }, [.indication p.leaderIndex]) := by
  obtain ⟨T, hstop, hlive, hnext⟩ := stopPingTimer_eq hinv
  refine ⟨T.schedule .noPing, ?_, ?_, ?_⟩
  · rw [Timers.live_schedule hlive, hnext]
  · rw [← hnext]
    rfl
  · unfold changeState
    rw [hstate, hstop]
    dsimp only [startNoPingTimer, Timers.handle]
    rw [hnext]

/-- A follower becomes the leader. -/
theorem changeState_leader (hinv : ∀ t ∈ p.timers.live, p.noPingTimer = some t)
    (hstate : p.state = .follower) : ∃ T, T.live = [⟨p.timers.next, .ping⟩] ∧ T.next = p.timers.next + 1 ∧
      p.changeState .leader = ({ p with
        noPingTimer := none
        pingTimer := some ⟨p.timers.next, .ping⟩
        state := .leader
        timers := T }, p.ping p.round p.leaderIndex ++ [.indication p.leaderIndex]) := by
  obtain ⟨T, hstop, hlive, hnext⟩ := stopNoPingTimer_eq hinv
  refine ⟨T.schedule .ping, ?_, ?_, ?_⟩
  · rw [Timers.live_schedule hlive, hnext]
  · rw [← hnext]
    rfl
  · unfold changeState
    rw [hstate, hstop]
    dsimp only [startPingTimer, Timers.handle]
    rw [hnext]
    rfl

theorem resetNoPingTimer_eq (hinv : ∀ t ∈ p.timers.live, p.noPingTimer = some t) :
    ∃ T, T.live = [⟨p.timers.next, .noPing⟩] ∧ T.next = p.timers.next + 1 ∧
      p.resetNoPingTimer = { p with noPingTimer := some ⟨p.timers.next, .noPing⟩, timers := T } := by
  obtain ⟨T, hstop, hlive, hnext⟩ := stopNoPingTimer_eq hinv
  refine ⟨T.schedule .noPing, ?_, ?_, ?_⟩
  · rw [Timers.live_schedule hlive, hnext]
  · rw [← hnext]
    rfl
  · unfold resetNoPingTimer
    rw [hstop]
    dsimp only [startNoPingTimer, Timers.handle]
    rw [hnext]

theorem Move.stay (p : Participant) (e : ParticipantEvent) : Move p e p [] :=
  .idle e p [] ⟨rfl, rfl⟩ rfl rfl rfl rfl rfl fun o ho => by cases ho

/-- A follower with a new no-ping timer. -/
theorem timerInv_follower {i : ℕ} (hstate : p'.state = .follower) (hping : p'.pingTimer = none)
    (hno : p'.noPingTimer = some ⟨i, .noPing⟩) (hlive : p'.timers.live = [⟨i, .noPing⟩]) :
    TimerInv p' := by
  refine ⟨fun h => ?_, fun _ => ⟨hping, fun t ht => ?_⟩, fun _ => ?_⟩
  · rw [hstate] at h
    cases h
  · rw [hlive, List.mem_singleton] at ht
    rw [ht]
    exact ⟨hno, rfl⟩
  · rw [hlive]
    exact List.cons_ne_nil _ _

/-- A leader with a new ping timer. -/
theorem timerInv_leader {i : ℕ} (hstate : p'.state = .leader) (hno : p'.noPingTimer = none)
    (hping : p'.pingTimer = some ⟨i, .ping⟩) (hlive : p'.timers.live = [⟨i, .ping⟩]) :
    TimerInv p' := by
  refine ⟨fun _ => ⟨hno, fun t ht => ?_⟩, fun h => ?_, fun _ => ?_⟩
  · rw [hlive, List.mem_singleton] at ht
    rw [ht]
    exact ⟨hping, rfl⟩
  · rw [hstate] at h
    cases h
  · rw [hlive]
    exact List.cons_ne_nil _ _

/-- A follower takes over the ballot of a ping that is not smaller than its own. -/
theorem handlePing_follower (hstate : p.state = .follower) (hlt : ¬ m.ballot < p.ballot) :
    p.handlePing m = ({ p with round := m.round, leaderIndex := m.leaderIndex }.resetNoPingTimer, []) := by
  unfold handlePing
  split
  · rw [if_neg hlt]
    split_ifs with heq
    · have hpair : (m.round, m.leaderIndex) = (p.round, p.leaderIndex) := heq
      obtain ⟨hr, hl⟩ := Prod.mk.inj hpair
      rw [hr, hl]
    · rfl
  · next hleader =>
    rw [hstate] at hleader
    cases hleader

theorem handlePing_leader (hstate : p.state = .leader) (hlt : p.ballot < m.ballot) :
    p.handlePing m = { p with round := m.round, leaderIndex := m.leaderIndex }.changeState .follower := by
  unfold handlePing
  split
  · next hfollower =>
    rw [hstate] at hfollower
    cases hfollower
  · rw [if_neg (not_le.mpr hlt)]

/-- Other pings are stale. -/
theorem handlePing_stale (hlt : p.state = .follower → m.ballot < p.ballot)
    (hle : p.state = .leader → m.ballot ≤ p.ballot) : p.handlePing m = (p, []) := by
  unfold handlePing
  split
  · next hstate => rw [if_pos (hlt hstate)]
  · next hstate => rw [if_pos (hle hstate)]

theorem handlePing_move (h : TimerInv p) (m : Ping) :
    Move p (.ping m) (p.handlePing m).1 (p.handlePing m).2 ∧ TimerInv (p.handlePing m).1 := by
  have hstale : p.handlePing m = (p, []) →
      Move p (.ping m) (p.handlePing m).1 (p.handlePing m).2 ∧ TimerInv (p.handlePing m).1 := by
    intro heq
    rw [heq]
    exact ⟨Move.stay p _, h⟩
  cases hstate : p.state with
  | follower =>
    obtain ⟨hping, hno⟩ := h.follower hstate
    by_cases hlt : m.ballot < p.ballot
    · exact hstale (handlePing_stale (fun _ => hlt) fun hl => by rw [hstate] at hl; cases hl)
    · obtain ⟨T, hlive, hnext, heq⟩ := resetNoPingTimer_eq (p := { p with
        round := m.round, leaderIndex := m.leaderIndex }) fun t ht => (hno t ht).1
      rw [handlePing_follower hstate hlt, heq]
      exact ⟨.heard m _ ⟨rfl, rfl⟩ hstate hlt hstate rfl rfl rfl ⟨hlive, hnext⟩,
        timerInv_follower hstate hping rfl hlive⟩
  | leader =>
    obtain ⟨-, hping⟩ := h.leader hstate
    by_cases hle : m.ballot ≤ p.ballot
    · exact hstale (handlePing_stale (fun hf => by rw [hstate] at hf; cases hf) fun _ => hle)
    · obtain ⟨T, hlive, hnext, heq⟩ := changeState_follower (p := { p with
        round := m.round, leaderIndex := m.leaderIndex }) (fun t ht => (hping t ht).1) hstate
      rw [handlePing_leader hstate (not_le.mp hle), heq]
      exact ⟨.yield m _ ⟨rfl, rfl⟩ hstate (not_le.mp hle) rfl rfl rfl rfl ⟨hlive, hnext⟩,
        timerInv_follower rfl rfl rfl hlive⟩

theorem handleTimeout_move (h : TimerInv p) {id : ℕ} (hres : p.handleTimeout id = some (p', out)) :
    Move p (.timeout id) p' out ∧ TimerInv p' := by
  unfold handleTimeout at hres
  split at hres
  · next hcb =>
    have hin := Timers.callbackOf_eq_some hcb
    cases hres
    cases hstate : p.state with
    | leader => exact ⟨.tick id hstate (List.ne_nil_of_mem hin), h⟩
    | follower => cases ((h.follower hstate).2 _ hin).2
  · next hcb =>
    have hin := Timers.callbackOf_eq_some hcb
    cases hstate : p.state with
    | leader => cases ((h.leader hstate).2 _ hin).2
    | follower =>
      obtain ⟨-, hno⟩ := h.follower hstate
      -- the timer has left the table before its handle is cancelled
      obtain ⟨T, hlive, hnext, heq⟩ := changeState_leader (p := { p with
        timers := p.timers.remove id, round := p.round + 1, leaderIndex := p.index })
        (fun t ht => (hno t (Timers.mem_remove.mp ht).1).1) hstate
      have hres : ({ p with timers := p.timers.remove id } : Participant).noPing = (p', out) :=
        Option.some.inj hres
      rw [noPing, heq] at hres
      cases hres
      exact ⟨.claim id _ ⟨rfl, rfl⟩ hstate (List.ne_nil_of_mem hin) rfl rfl rfl rfl ⟨hlive, hnext⟩,
        timerInv_leader rfl rfl rfl hlive⟩
  · cases hres

theorem state_cases (p : Participant) : p.state = .leader ∨ p.state = .follower := by
  cases p.state
  · exact .inl rfl
  · exact .inr rfl

/-- Stopping both timers leaves none. -/
theorem stopTimers_eq (h : TimerInv p) : ∃ T, p.stopPingTimer.stopNoPingTimer =
    { p with pingTimer := none, noPingTimer := none, timers := T } ∧ T.live = [] ∧
      T.next = p.timers.next := by
  rcases state_cases p with hstate | hstate
  · obtain ⟨T, hstop, hlive, hnext⟩ := stopPingTimer_eq fun t ht => ((h.leader hstate).2 t ht).1
    obtain ⟨T', hstop', hlive', hnext'⟩ := stopNoPingTimer_eq
      (p := { p with pingTimer := none, timers := T }) fun t ht => by rw [hlive] at ht; cases ht
    exact ⟨T', (congrArg stopNoPingTimer hstop).trans hstop', hlive', hnext'.trans hnext⟩
  · obtain ⟨hping, hno⟩ := h.follower hstate
    have hstop : p.stopPingTimer = { p with pingTimer := none } := by
      unfold stopPingTimer
      cases p
      cases hping
      rfl
    obtain ⟨T', hstop', hlive', hnext'⟩ := stopNoPingTimer_eq
      (p := { p with pingTimer := none }) fun t ht => (hno t ht).1
    exact ⟨T', (congrArg stopNoPingTimer hstop).trans hstop', hlive', hnext'⟩

theorem handleStop_move (h : TimerInv p) (pid : ℕ) :
    Move p (.stop pid) (p.handleStop pid).1 (p.handleStop pid).2 ∧ TimerInv (p.handleStop pid).1 := by
  have h' : TimerInv { p with disconnectedPeers := [] } := ⟨h.leader, h.follower, h.running⟩
  obtain ⟨T, hstop, hlive, hnext⟩ := stopTimers_eq h'
  have hinv : ∀ q : Participant, q.timers = T → q.pingTimer = none → q.noPingTimer = none →
      q.stopped = true → TimerInv q := by
    intro q hT hping hno hstopped
    have hnil : ∀ t, t ∉ q.timers.live := by
      rw [hT, hlive]
      exact fun t => List.not_mem_nil
    refine ⟨fun _ => ⟨hno, fun t ht => absurd ht (hnil t)⟩, fun _ => ⟨hping, fun t ht => absurd ht (hnil t)⟩,
      fun hrun => ?_⟩
    rw [hstopped] at hrun
    cases hrun
  have hnote : ∀ o ∈ p.otherParticipants.map (fun peer => ParticipantOut.peerStop peer pid),
      IsNote o := by
    intro o ho
    obtain ⟨peer, -, rfl⟩ := List.mem_map.mp ho
    trivial
  unfold handleStop
  dsimp only
  rw [hstop]
  dsimp only
  split_ifs
  · refine ⟨.stop pid _ _ ⟨rfl, rfl⟩ rfl rfl rfl rfl hlive hnext fun o ho => ?_, hinv _ rfl rfl rfl rfl⟩
    rcases List.mem_append.mp ho with ho | ho
    · exact hnote o ho
    · rw [List.mem_singleton.mp ho]
      trivial
  · exact ⟨.stop pid _ _ ⟨rfl, rfl⟩ rfl rfl rfl rfl hlive hnext hnote, hinv _ rfl rfl rfl rfl⟩

/-- **Every event has one of the effects of `Move`**, and keeps the timers in order. -/
theorem handle_move (h : TimerInv p) (hres : p.handle e = some (p', out)) :
    Move p e p' out ∧ TimerInv p' := by
  cases e with
  | timeout id => exact handleTimeout_move h hres
  | ping m =>
    have hres : p.receivePing m = (p', out) := Option.some.inj hres
    unfold receivePing at hres
    split_ifs at hres
    · cases hres
      exact ⟨Move.stay p _, h⟩
    · have hmove := handlePing_move h m
      rw [hres] at hmove
      exact hmove
  | stop pid =>
    have hres : p.handleStop pid = (p', out) := Option.some.inj hres
    have hmove := handleStop_move h pid
    rw [hres] at hmove
    exact hmove
  | peerStop pid =>
    have hres : p.handlePeerStop pid = some (p', out) := hres
    unfold handlePeerStop at hres
    dsimp only at hres
    split_ifs at hres
    · cases hres
      refine ⟨.idle _ _ _ ⟨rfl, rfl⟩ rfl rfl rfl rfl rfl fun o ho => ?_, h.leader, h.follower, h.running⟩
      rw [List.mem_singleton.mp ho]
      trivial
    · cases hres
      exact ⟨.idle _ _ _ ⟨rfl, rfl⟩ rfl rfl rfl rfl rfl (fun o ho => by cases ho),
        h.leader, h.follower, h.running⟩
  | partition pe =>
    obtain ⟨s, -, heq⟩ := Option.map_eq_some_iff.mp hres
    cases heq
    exact ⟨.idle _ _ _ ⟨rfl, rfl⟩ rfl rfl rfl rfl rfl (fun o ho => by cases ho),
      h.leader, h.follower, h.running⟩

/-! ### Stopped participants -/

/-- The pings that are neither from a disconnected leader nor stale. -/
def Heeds (p : Participant) (m : Ping) : Prop := m.leaderIndex ∉ p.disconnectedPeers ∧
  (p.state = .follower → ¬ m.ballot < p.ballot) ∧ (p.state = .leader → ¬ m.ballot ≤ p.ballot)

instance (p : Participant) (m : Ping) : Decidable (p.Heeds m) :=
  inferInstanceAs (Decidable (_ ∧ (_ → ¬ _) ∧ (_ → ¬ _)))

/-- A ping that is heeded starts a no-ping timer, also after a stop. -/
theorem next_of_heeds (h : TimerInv p) (hm : p.Heeds m) :
    (p.receivePing m).1.timers.next = p.timers.next + 1 := by
  obtain ⟨hconn, hfollower, hleader⟩ := hm
  unfold receivePing
  rw [if_neg hconn]
  rcases state_cases p with hstate | hstate
  · obtain ⟨T, -, hnext, heq⟩ := changeState_follower (p := { p with
      round := m.round, leaderIndex := m.leaderIndex })
      (fun t ht => ((h.leader hstate).2 t ht).1) hstate
    rw [handlePing_leader hstate (not_le.mp (hleader hstate)), heq]
    exact hnext
  · obtain ⟨T, -, hnext, heq⟩ := resetNoPingTimer_eq (p := { p with
      round := m.round, leaderIndex := m.leaderIndex }) fun t ht => ((h.follower hstate).2 t ht).1
    rw [handlePing_follower hstate (hfollower hstate), heq]
    exact hnext

/-- Other pings change nothing. -/
theorem receivePing_of_not_heeds (hm : ¬ p.Heeds m) : p.receivePing m = (p, []) := by
  unfold receivePing
  split_ifs with hconn
  · rfl
  · refine handlePing_stale (fun hstate => ?_) fun hstate => ?_
    · by_contra hlt
      refine hm ⟨hconn, fun _ => hlt, fun hleader => ?_⟩
      rw [hstate] at hleader
      cases hleader
    · by_contra hle
      refine hm ⟨hconn, fun hfollower => ?_, fun _ => hle⟩
      rw [hstate] at hfollower
      cases hfollower

/-- A stopped participant has no timer until it heeds a ping, and neither pings nor indicates. -/
theorem handle_stopped (h : TimerInv p) (hlive : p.stopped = true → p.timers.live = [])
    (hheeds : ∀ m, e = .ping m → p.stopped = true → ¬ p.Heeds m) (hres : p.handle e = some (p', out)) :
    (p'.stopped = true → p'.timers.live = []) ∧
      (p.stopped = true → p'.timers.next = p.timers.next ∧ ∀ o ∈ out, IsNote o) := by
  have hping : ∀ m, e = .ping m → p.stopped = true → p' = p ∧ out = [] := by
    rintro m rfl hstop
    have hres : p.receivePing m = (p', out) := Option.some.inj hres
    rw [receivePing_of_not_heeds (hheeds m rfl hstop)] at hres
    cases hres
    exact ⟨rfl, rfl⟩
  cases (handle_move h hres).1 with
  | idle _ _ _ frame ballot leaderIndex state stopped timers outs =>
    rw [stopped, timers]
    exact ⟨hlive, fun _ => ⟨rfl, outs⟩⟩
  | stop _ _ _ frame ballot leaderIndex state stopped live next outs =>
    exact ⟨fun _ => live, fun _ => ⟨next, outs⟩⟩
  | tick _ state live => exact ⟨hlive, fun hstop => absurd (hlive hstop) live⟩
  | claim _ _ frame had live state round leaderIndex stopped timer =>
    rw [stopped]
    exact ⟨fun hstop => absurd (hlive hstop) live, fun hstop => absurd (hlive hstop) live⟩
  | heard m _ frame had ballot state round leaderIndex stopped timer =>
    rw [stopped]
    refine ⟨fun hstop => ?_, fun hstop => ?_⟩
    · rw [(hping m rfl hstop).1]
      exact hlive hstop
    · rw [(hping m rfl hstop).1]
      exact ⟨rfl, nofun⟩
  | yield m _ frame had ballot state round leaderIndex stopped timer =>
    rw [stopped]
    refine ⟨fun hstop => ?_, fun hstop => ?_⟩
    · rw [(hping m rfl hstop).1]
      exact hlive hstop
    · cases (hping m rfl hstop).2

theorem timerInv_onStart (peers : List ℕ) (pid initialLeaderIndex : ℕ) :
    TimerInv (new peers pid initialLeaderIndex).onStart := by
  unfold onStart
  split
  · next hstate => exact timerInv_leader (i := 0) hstate rfl rfl rfl
  · next hstate => exact timerInv_follower (i := 0) hstate rfl rfl rfl

end Participant

end OmniPaxosBench.MultiPaxos
