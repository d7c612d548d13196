import OmniPaxosBench.LeaderElection.MultiPaxosElection
import OmniPaxosBench.Lib.Rounds

/-! # Multi-Paxos style leader election: heartbeat rounds

`Turn` lists the events of a node once more, with what they do to its round. The nodes run in `Rounds`, and
every ballot a node has heard of is that of a node, at most its present one (`KnownInv`). -/

namespace OmniPaxosBench.LeaderElection

open OmniPaxosBench.Lib

namespace MultiPaxosLeaderComp

variable {c c' : MultiPaxosLeaderComp} {e : MPEvent} {out : List MPOut}

/-- The largest ballot of the round, the node's own among them. -/
def top (c : MultiPaxosLeaderComp) : Ballot := topBallot (c.ballots ++ [c.currentBallot])

def HasQuorum (c : MultiPaxosLeaderComp) : Prop := c.majority ≤ c.ballots.length + 1

/-- Whose replies the node has stored. -/
def repliers (c : MultiPaxosLeaderComp) : List ℕ := c.ballots.map (·.pid)

/-- The leader after one has been named. -/
def hear (c : MultiPaxosLeaderComp) (b : Ballot) : Option Ballot :=
  if c.leader.getD default < b then some b else c.leader

/-- What lasts longer than a round is unchanged. -/
structure Same (c c' : MultiPaxosLeaderComp) : Prop where
  ballot : c'.currentBallot = c.currentBallot
  majority : c'.majority = c.majority
  hbRound : c'.hbRound = c.hbRound

/-- No message of a round and no indication. -/
def IsOther : MPOut → Prop
  | .peerStop _ _ | .stopReply => True
  | _ => False

/-- An indication, or a request of round `r`. -/
def OfRound (r : ℕ) : MPOut → Prop
  | .request _ round => round = r
  | .indication _ => True
  | _ => False

/-- The round is over, and the next one has begun. -/
structure NextRound (c c' : MultiPaxosLeaderComp) (out : List MPOut) : Prop where
  hbRound : c'.hbRound = (c.hbRound + 1) % 2 ^ 32
  majority : c'.majority = c.majority
  ballots : c'.ballots = []
  outs : ∀ o ∈ out, OfRound c'.hbRound o

/-- The events of a node: one outside of the rounds, an answer to a request, a reply stored, and the
three ways in which a round ends. -/
inductive Turn (c : MultiPaxosLeaderComp) : MPEvent → MultiPaxosLeaderComp → List MPOut → Prop
  | other (e : MPEvent) (c' : MultiPaxosLeaderComp) (out : List MPOut) (same : Same c c')
      (leader : c'.leader = c.leader) (ballots : c'.ballots = c.ballots) (outs : ∀ o ∈ out, IsOther o)
      (quiet : ∀ id, e ≠ .timeout id) : Turn c e c' out
  | answer (sender round : ℕ) :
      Turn c (.request sender round) c [.reply sender ⟨round, c.currentBallot, c.leader.getD default⟩]
  | collect (m : MPHeartbeatReply) (c' : MultiPaxosLeaderComp) (out : List MPOut) (round : m.round = c.hbRound)
      (same : Same c c') (leader : c'.leader = c.hear m.currentLeader)
      (ballots : c'.ballots = c.ballots ++ [m.ballot]) (outs : ∀ o ∈ out, OfRound c'.hbRound o) :
      Turn c (.reply m) c' out
  | lapse (id : ℕ) (c' : MultiPaxosLeaderComp) (out : List MPOut) (next : NextRound c c' out)
      (quorum : ¬ c.HasQuorum) (ballot : c'.currentBallot = c.currentBallot)
      (leader : c'.leader = c.leader) : Turn c (.timeout id) c' out
  | drop (id : ℕ) (c' : MultiPaxosLeaderComp) (out : List MPOut) (next : NextRound c c' out)
      (quorum : c.HasQuorum) (b : Ballot) (had : c.leader = some b) (below : c.top < b)
      (ballot : c'.currentBallot = ⟨(b.n + 1) % 2 ^ 32, c.currentBallot.pid⟩)
      (leader : c'.leader = none) : Turn c (.timeout id) c' out
  | follow (id : ℕ) (c' : MultiPaxosLeaderComp) (out : List MPOut) (next : NextRound c c' out)
      (quorum : c.HasQuorum) (above : ∀ b, c.leader = some b → b ≤ c.top)
      (ballot : c'.currentBallot = c.currentBallot) (leader : c'.leader = some c.top) :
      Turn c (.timeout id) c' out

theorem ofRound_newHbRound {o : MPOut} (h : o ∈ c.newHbRound.2) : OfRound c.newHbRound.1.hbRound o := by
  obtain ⟨peer, -, rfl⟩ := List.mem_map.mp h
  rfl

theorem nextRound_newHbRound {c₀ : MultiPaxosLeaderComp} (pre : List MPOut) (hround : c₀.hbRound = c.hbRound)
    (hmajority : c₀.majority = c.majority) (hballots : c₀.ballots = [])
    (hpre : ∀ o ∈ pre, ∃ l, o = .indication l) : NextRound c c₀.newHbRound.1 (pre ++ c₀.newHbRound.2) := by
  refine ⟨?_, hmajority, hballots, fun o ho => ?_⟩
  · rw [← hround]; rfl
  · rcases List.mem_append.mp ho with ho | ho
    · obtain ⟨l, rfl⟩ := hpre o ho
      trivial
    · exact ofRound_newHbRound ho

theorem le_top (c : MultiPaxosLeaderComp) {b : Ballot} (h : b ∈ c.ballots ∨ b = c.currentBallot) : b ≤ c.top := by
  have hown : c.currentBallot ∈ c.ballots ++ [c.currentBallot] := List.mem_append_right _ List.mem_cons_self
  refine (topBallot_spec hown).2 b ?_
  rcases h with h | rfl
  · exact List.mem_append_left _ h
  · exact hown

theorem top_mem (c : MultiPaxosLeaderComp) : c.top ∈ c.ballots ∨ c.top = c.currentBallot := by
  have hown : c.currentBallot ∈ c.ballots ++ [c.currentBallot] := List.mem_append_right _ List.mem_cons_self
  rcases List.mem_append.mp (topBallot_spec hown).1 with h | h
  · exact Or.inl h
  · exact Or.inr (List.mem_singleton.mp h)

theorem hbTimeout_turn (id : ℕ) (timers : Timers Unit) :
    Turn c (.timeout id) { c with timers := timers }.hbTimeout.1 { c with timers := timers }.hbTimeout.2 := by
  unfold hbTimeout
  split_ifs with hq
  · unfold checkLeader
    dsimp only
    have habove : ¬ c.top < c.leader.getD default → ∀ b, c.leader = some b → b ≤ c.top := by
      intro hlt b hb
      rw [hb] at hlt
      exact not_lt.mp hlt
    split_ifs with hlt hne
    · cases hl : c.leader with
      | none =>
        rw [hl] at hlt
        exact absurd hlt Ballot.not_lt_default
      | some b =>
        refine .drop id _ _ (nextRound_newHbRound [] rfl rfl rfl fun o ho => by cases ho) hq b hl ?_ rfl rfl
        rw [hl] at hlt
        exact hlt
    · refine .follow id _ _ (nextRound_newHbRound _ rfl rfl rfl fun o ho => ?_) hq (habove hlt) rfl rfl
      exact ⟨_, List.mem_singleton.mp ho⟩
    · rw [ne_eq, not_not] at hne
      exact .follow id _ _ (nextRound_newHbRound [] rfl rfl rfl fun o ho => by cases ho) hq (habove hlt) rfl hne
  · exact .lapse id _ _ (nextRound_newHbRound [] rfl rfl rfl fun o ho => by cases ho) hq rfl rfl

theorem handleReply_turn (m : MPHeartbeatReply) : Turn c (.reply m) (c.handleReply m).1 (c.handleReply m).2 := by
  have hnone : Turn c (.reply m) c [] :=
    .other _ _ _ ⟨rfl, rfl, rfl⟩ rfl rfl (fun o ho => by cases ho) nofun
  unfold handleReply
  dsimp only
  split_ifs with hstop hdisc hround hlt
  · exact hnone
  · exact hnone
  · refine .collect m _ _ hround ⟨rfl, rfl, rfl⟩ (if_pos hlt).symm rfl fun o ho => ?_
    rw [List.mem_singleton.mp ho]
    trivial
  · exact .collect m _ _ hround ⟨rfl, rfl, rfl⟩ (if_neg hlt).symm rfl fun o ho => by cases ho
  · exact hnone

theorem handleStop_turn (pid : ℕ) : Turn c (.stop pid) (c.handleStop pid).1 (c.handleStop pid).2 := by
  have hstop : ∀ d : MultiPaxosLeaderComp, Same d d.stopTimer ∧ d.stopTimer.leader = d.leader ∧
      d.stopTimer.ballots = d.ballots := by
    intro d
    unfold stopTimer
    split <;> exact ⟨⟨rfl, rfl, rfl⟩, rfl, rfl⟩
  obtain ⟨⟨h1, h2, h3⟩, h4, h5⟩ := hstop { c with disconnectedPeers := [] }
  have hother : ∀ o ∈ { c with disconnectedPeers := [] }.stopTimer.peers.map
      (fun peer => MPOut.peerStop peer pid), IsOther o := by
    intro o ho
    obtain ⟨peer, -, rfl⟩ := List.mem_map.mp ho
    trivial
  unfold handleStop
  dsimp only
  split_ifs with hlen
  · refine .other _ _ _ ⟨h1, h2, h3⟩ h4 h5 (fun o ho => ?_) nofun
    rcases List.mem_append.mp ho with ho | ho
    · exact hother o ho
    · rw [List.mem_singleton.mp ho]
      trivial
  · exact .other _ _ _ ⟨h1, h2, h3⟩ h4 h5 hother nofun

theorem handlePeerStop_turn {pid : ℕ} (h : c.handlePeerStop pid = some (c', out)) :
    Turn c (.peerStop pid) c' out := by
  unfold handlePeerStop at h
  dsimp only at h
  split_ifs at h
  · cases h
    refine .other _ _ _ ⟨rfl, rfl, rfl⟩ rfl rfl (fun o ho => ?_) nofun
    rw [List.mem_singleton.mp ho]
    trivial
  · cases h
    exact .other _ _ _ ⟨rfl, rfl, rfl⟩ rfl rfl (fun o ho => by cases ho) nofun

/-- **Every event is one of `Turn`.** -/
theorem handle_turn (h : c.handle e = some (c', out)) : Turn c e c' out := by
  cases e with
  | timeout id =>
    obtain ⟨⟨_, timers⟩, -, heq⟩ := Option.map_eq_some_iff.mp h
    have hturn := hbTimeout_turn (c := c) id timers
    dsimp only at heq
    rw [heq] at hturn
    exact hturn
  | request sender round =>
    have heq := Option.some.inj h
    unfold handleRequest at heq
    split_ifs at heq
    · cases heq
      exact .other _ _ _ ⟨rfl, rfl, rfl⟩ rfl rfl (fun o ho => by cases ho) nofun
    · cases heq
      exact .answer sender round
  | reply m =>
    have hturn := handleReply_turn (c := c) m
    rw [Option.some.inj h] at hturn
    exact hturn
  | stop pid =>
    have hturn := handleStop_turn (c := c) pid
    rw [Option.some.inj h] at hturn
    exact hturn
  | peerStop pid => exact handlePeerStop_turn h
  | partition e =>
    obtain ⟨part, -, heq⟩ := Option.map_eq_some_iff.mp h
    cases heq
    exact .other _ _ _ ⟨rfl, rfl, rfl⟩ rfl rfl (fun o ho => by cases ho) nofun

/-- A turn sends no request that is ahead of the present round, and replies with the number asked for. -/
theorem Turn.outs (hturn : Turn c e c' out) : (∀ p r, .request p r ∈ out → r = c'.hbRound) ∧
    (∀ p m, .reply p m ∈ out → e = .request p m.round ∧ m.ballot = c.currentBallot ∧
      m.currentLeader = c.leader.getD default) := by
  have hround : (∀ o ∈ out, OfRound c'.hbRound o) → (∀ p r, .request p r ∈ out → r = c'.hbRound) ∧
      (∀ p m, .reply p m ∈ out → e = .request p m.round ∧ m.ballot = c.currentBallot ∧
        m.currentLeader = c.leader.getD default) :=
    fun h => ⟨fun p r hmem => h _ hmem, fun p m hmem => (h _ hmem).elim⟩
  cases hturn with
  | other _ _ _ _ _ _ outs _ => exact ⟨fun p r hmem => (outs _ hmem).elim, fun p m hmem => (outs _ hmem).elim⟩
  | answer sender round =>
    refine ⟨fun p r hmem => ?_, fun p m hmem => ?_⟩
    · cases List.mem_singleton.mp hmem
    · cases List.mem_singleton.mp hmem
      exact ⟨rfl, rfl, rfl⟩
  | collect _ _ _ _ _ _ _ outs => exact hround outs
  | lapse _ _ _ next => exact hround next.outs
  | drop _ _ _ next => exact hround next.outs
  | follow _ _ _ next => exact hround next.outs

/-- The round stays the same, or ends by a timeout. -/
theorem Turn.hbRound (hturn : Turn c e c' out) : (c'.hbRound = c.hbRound ∧ ∀ id, e ≠ .timeout id) ∨
    ((∃ id, e = .timeout id) ∧ NextRound c c' out) := by
  cases hturn with
  | other _ _ _ same _ _ _ quiet => exact Or.inl ⟨same.hbRound, quiet⟩
  | answer => exact Or.inl ⟨rfl, nofun⟩
  | collect _ _ _ _ same => exact Or.inl ⟨same.hbRound, nofun⟩
  | lapse id _ _ next => exact Or.inr ⟨⟨id, rfl⟩, next⟩
  | drop id _ _ next => exact Or.inr ⟨⟨id, rfl⟩, next⟩
  | follow id _ _ next => exact Or.inr ⟨⟨id, rfl⟩, next⟩

theorem Turn.majority (hturn : Turn c e c' out) : c'.majority = c.majority := by
  cases hturn with
  | other _ _ _ same => exact same.majority
  | answer => rfl
  | collect _ _ _ _ same => exact same.majority
  | lapse _ _ _ next => exact next.majority
  | drop _ _ _ next => exact next.majority
  | follow _ _ _ next => exact next.majority

theorem NextRound.eq_succ (h : NextRound c c' out) (hlt : c.hbRound < 2 ^ 32 - 1) :
    c'.hbRound = c.hbRound + 1 := by
  rw [h.hbRound, Nat.mod_eq_of_lt (by omega)]

end MultiPaxosLeaderComp

namespace MPElection

open MultiPaxosLeaderComp

variable {S : MPSetup} {s t : MPElection} {i j k : ℕ} {c : MultiPaxosLeaderComp} {out : List MPOut}
  {e : ℕ × MPEvent}

variable (S) in
/-- No ballot number and no round number has reached `2 ^ 32 - 1`. -/
def Unwrapped (s : MPElection) (e : ℕ × MPEvent) : Prop :=
  Small S s e ∧ ∀ i ∈ S.nodes, (s.node i).hbRound < 2 ^ 32 - 1

instance (e : ℕ × MPEvent) : Decidable (Unwrapped S s e) := inferInstanceAs (Decidable (_ ∧ _))

theorem turn_of_step (h : s.step S e = some t) : ∃ k me c out, e = (k, me) ∧ k ∈ S.nodes ∧
    s.Input S k me ∧ Turn (s.node k) me c out ∧ t = s.set k c out := by
  obtain ⟨k, me⟩ := e
  simp only [step] at h
  split_ifs at h with hin
  obtain ⟨⟨c, out⟩, hc, rfl⟩ := Option.map_eq_some_iff.mp h
  exact ⟨k, me, c, out, rfl, hin.1, hin.2, handle_turn hc, rfl⟩

theorem mem_outs_set {o : MPOut} (h : o ∈ (s.set k c out).outs j) : o ∈ s.outs j ∨ (j = k ∧ o ∈ out) := by
  by_cases hj : j = k
  · subst hj
    have houts : (s.set j c out).outs j = s.outs j ++ out := Function.update_self ..
    rw [houts, List.mem_append] at h
    exact h.imp_right fun h => ⟨rfl, h⟩
  · have houts : (s.set k c out).outs j = s.outs j := Function.update_of_ne hj ..
    rw [houts] at h
    exact Or.inl h

/-! ### The rounds -/

variable (S) in
/-- The heartbeat rounds of the nodes. -/
def rounds : Rounds MPElection ℕ MPHeartbeatReply where
  round s i := (s.node i).hbRound
  Asked s i r := ∃ p, .request p r ∈ s.outs i
  Answered s i m := ∃ j ∈ S.nodes, .reply i m ∈ s.outs j
  number m := m.round

/-- The round of node `i` ends. -/
def Beats (i : ℕ) (e : ℕ × MPEvent) : Prop := ∃ id, e = (i, .timeout id)

/-- The event is a request, and the reply to it carries what its receiver `k` has. -/
structure Given (s : MPElection) (e : ℕ × MPEvent) (m : MPHeartbeatReply) (k : ℕ) : Prop where
  request : ∃ p, e = (k, .request p m.round)
  ballot : m.ballot = (s.node k).currentBallot
  leader : m.currentLeader = (s.node k).leader.getD default

theorem rounds_step (hok : Unwrapped S s e) (hstep : s.step S e = some t) :
    (rounds S).Step (Beats · e) (fun _ m => ∃ k ∈ S.nodes, Given s e m k) s t := by
  obtain ⟨k, me, c, out, rfl, hk, hin, hturn, rfl⟩ := turn_of_step hstep
  refine ⟨fun i hi => ?_, fun i hi => ?_, fun i r hr => ?_, fun i m hm => ?_⟩
  · obtain ⟨id, hid⟩ := hi
    obtain ⟨rfl, rfl⟩ := Prod.mk.inj hid
    show ((s.set k c out).node k).hbRound = _
    rw [node_set_self]
    rcases hturn.hbRound with ⟨-, hquiet⟩ | ⟨-, hnext⟩
    · exact absurd rfl (hquiet id)
    · exact hnext.eq_succ (hok.2 k hk)
  · show ((s.set k c out).node i).hbRound = _
    by_cases hik : i = k
    · subst hik
      rw [node_set_self]
      rcases hturn.hbRound with ⟨heq, -⟩ | ⟨⟨id, rfl⟩, -⟩
      · exact heq
      · exact absurd ⟨id, rfl⟩ hi
    · rw [node_set_of_ne hik]
      rfl
  · obtain ⟨p, hp⟩ := hr
    rcases mem_outs_set hp with hold | ⟨rfl, hnew⟩
    · exact Or.inl ⟨p, hold⟩
    · refine Or.inr ?_
      show r = ((s.set i c out).node i).hbRound
      rw [node_set_self]
      exact hturn.outs.1 p r hnew
  · obtain ⟨j, hj, hmem⟩ := hm
    rcases mem_outs_set hmem with hold | ⟨rfl, hnew⟩
    · exact Or.inl ⟨j, hj, hold⟩
    · obtain ⟨rfl, hb, hl⟩ := hturn.outs.2 i m hnew
      exact Or.inr ⟨⟨j, hin.2⟩, j, hj, ⟨i, rfl⟩, hb, hl⟩

theorem sound_of_unwrapped (h : (machine S).ReachableUnder (Unwrapped S) s) : (rounds S).Sound s := by
  refine h.invariant (P := (rounds S).Sound) ⟨fun i r hr => ?_, fun i m hm => ?_⟩
    fun s e t _ hok hs hstep => (rounds_step hok hstep).sound hs
  · obtain ⟨p, hp⟩ := hr
    exact (ofRound_newHbRound hp).le
  · obtain ⟨j, -, hmem⟩ := hm
    exact (ofRound_newHbRound hmem).elim

theorem majority_eq (hnodup : S.nodes.Nodup) (h : (machine S).Reachable s) :
    ∀ i ∈ S.nodes, (s.node i).majority = S.nodes.length / 2 + 1 := by
  refine h.invariant (P := fun s => ∀ i ∈ S.nodes, (s.node i).majority = S.nodes.length / 2 + 1) ?_ ?_
  · intro i hi
    have hlen : (S.nodes.filter (· ≠ i)).length + 1 = S.nodes.length := by
      have herase := hnodup.erase_eq_filter i
      have hlength := List.length_erase_of_mem hi
      have hpos := List.length_pos_of_mem hi
      simp only [ne_eq, herase] at hlength ⊢
      simp only [bne, decide_not, Bool.beq_eq_decide_eq] at hlength ⊢
      omega
    show ((S.nodes.filter (· ≠ i)).length + 1) / 2 + 1 = _
    rw [hlen]
  · intro s e t _ ih hstep i hi
    obtain ⟨k, me, c, out, rfl, -, -, hturn, rfl⟩ := turn_of_step hstep
    by_cases hik : i = k
    · subst hik
      rw [node_set_self]
      exact hturn.majority.trans (ih i hi)
    · rw [node_set_of_ne hik]
      exact ih i hi

/-! ### The ballots the nodes have heard of -/

/-- A leader that a node is started with is a node, and is started with itself. -/
def Agreed (S : MPSetup) : Prop := ∀ i ∈ S.nodes, ∀ l, S.initialLeader i = some l →
  l.pid ∈ S.nodes ∧ S.initialLeader l.pid = some l

variable (S) in
/-- It is the ballot of a node, or has been. -/
def Known (s : MPElection) (b : Ballot) : Prop := b.pid ∈ S.nodes ∧ b ≤ (s.node b.pid).currentBallot

variable (S) in
structure KnownInv (s : MPElection) : Prop where
  pid : ∀ i, (s.node i).currentBallot.pid = i
  leader : ∀ i ∈ S.nodes, ∀ b, (s.node i).leader = some b → Known S s b
  ballots : ∀ i ∈ S.nodes, ∀ b ∈ (s.node i).ballots, Known S s b
  replies : ∀ j ∈ S.nodes, ∀ i m, .reply i m ∈ s.outs j →
    Known S s m.ballot ∧ (m.currentLeader = default ∨ Known S s m.currentLeader)

theorem Known.mono {b : Ballot} (h : Known S s b) (hle : ∀ j, (s.node j).currentBallot ≤ (t.node j).currentBallot) :
    Known S t b := ⟨h.1, h.2.trans (hle _)⟩

theorem KnownInv.own (h : KnownInv S s) (hi : i ∈ S.nodes) : Known S s (s.node i).currentBallot := by
  unfold Known
  rw [h.pid i]
  exact ⟨hi, le_rfl⟩

theorem knownInv_init (hS : Agreed S) : KnownInv S (init S) := by
  have hballots : ∀ i, ((init S).node i).ballots = [] := fun _ => rfl
  have hpid : ∀ i, ((init S).node i).currentBallot.pid = i := by
    intro i
    show (new (S.nodes.filter (· ≠ i)) i (S.initialLeader i)).currentBallot.pid = i
    unfold new
    cases S.initialLeader i with
    | none => rfl
    | some l =>
      dsimp only
      split_ifs with hl
      · exact hl
      · rfl
  refine ⟨hpid, fun i hi b hb => ?_, fun i _ b hb => ?_, fun j _ i m hm => (ofRound_newHbRound hm).elim⟩
  · have hleader : (new (S.nodes.filter (· ≠ i)) i (S.initialLeader i)).leader = some b := hb
    unfold new at hleader
    cases hl : S.initialLeader i with
    | none =>
      rw [hl] at hleader
      cases hleader
    | some l =>
      rw [hl] at hleader
      cases hleader
      obtain ⟨hmem, hown⟩ := hS i hi l hl
      have hballot : ((init S).node l.pid).currentBallot = ⟨l.round.n, l.pid⟩ := by
        show (new (S.nodes.filter (· ≠ l.pid)) l.pid (S.initialLeader l.pid)).currentBallot = _
        unfold new
        rw [hown]
        exact if_pos rfl
      exact ⟨hmem, hballot.ge⟩
  · rw [hballots] at hb
    cases hb

/-- The number of a ballot that is raised does not wrap. -/
theorem raise_eq (hsmall : Small S s e) (hi : i ∈ S.nodes) {b : Ballot} (hb : (s.node i).leader = some b)
    (pid : ℕ) : (⟨(b.n + 1) % 2 ^ 32, pid⟩ : Ballot) = ⟨b.n + 1, pid⟩ := by
  have hlt := (hsmall i hi).2
  rw [hb] at hlt
  have hn : b.n < 2 ^ 32 - 1 := hlt
  rw [Nat.mod_eq_of_lt (by omega)]

/-- A turn keeps the ballot, or raises it above a leader that was above it. -/
theorem Turn.ballot {me : MPEvent} (hturn : Turn (s.node k) me c out) (hsmall : Small S s e) (hk : k ∈ S.nodes) :
    c.currentBallot = (s.node k).currentBallot ∨ ∃ b, (s.node k).leader = some b ∧ (s.node k).top < b ∧
      c.currentBallot = ⟨b.n + 1, (s.node k).currentBallot.pid⟩ ∧ c.leader = none := by
  cases hturn with
  | other _ _ _ same => exact Or.inl same.ballot
  | answer => exact Or.inl rfl
  | collect _ _ _ _ same => exact Or.inl same.ballot
  | lapse _ _ _ _ _ ballot => exact Or.inl ballot
  | drop _ _ _ _ _ b had below ballot leader =>
    exact Or.inr ⟨b, had, below, ballot.trans (raise_eq hsmall hk had _), leader⟩
  | follow _ _ _ _ _ _ ballot => exact Or.inl ballot

theorem lt_raise {a b : Ballot} (h : a ≤ b) (pid : ℕ) : a < ⟨b.n + 1, pid⟩ :=
  Ballot.lt_iff.mpr (Or.inl (Nat.lt_succ_of_le (Ballot.n_le h)))

/-- The ballot of a node never decreases. -/
theorem currentBallot_le_step (hok : Unwrapped S s e) (hstep : s.step S e = some t) (j : ℕ) :
    (s.node j).currentBallot ≤ (t.node j).currentBallot := by
  obtain ⟨k, me, c, out, rfl, hk, -, hturn, rfl⟩ := turn_of_step hstep
  by_cases hj : j = k
  · subst hj
    rw [node_set_self]
    rcases Turn.ballot hturn hok.1 hk with heq | ⟨b, -, hlt, heq, -⟩
    · exact heq.ge
    · rw [heq]
      exact (lt_raise (((s.node j).le_top (Or.inr rfl)).trans hlt.le) _).le
  · rw [node_set_of_ne hj]

/-- The leader after a turn. -/
theorem KnownInv.leader_turn (h : KnownInv S s) {me : MPEvent} (hk : k ∈ S.nodes) (hin : s.Input S k me)
    (hturn : Turn (s.node k) me c out) {b : Ballot} (hb : c.leader = some b) : Known S s b := by
  cases hturn with
  | other _ _ _ _ leader => exact h.leader k hk b (leader ▸ hb)
  | answer => exact h.leader k hk b hb
  | collect m _ _ _ _ leader =>
    rw [leader, hear] at hb
    split_ifs at hb with hlt
    · cases hb
      obtain ⟨j, hj, hsent⟩ := hin
      rcases (h.replies j hj k m hsent).2 with hdefault | hknown
      · rw [hdefault] at hlt
        exact absurd hlt Ballot.not_lt_default
      · exact hknown
    · exact h.leader k hk b hb
  | lapse _ _ _ _ _ _ leader => exact h.leader k hk b (leader ▸ hb)
  | drop _ _ _ _ _ _ _ _ _ leader =>
    rw [leader] at hb
    cases hb
  | follow _ _ _ _ _ _ _ leader =>
    rw [leader] at hb
    cases hb
    rcases (s.node k).top_mem with hmem | hown
    · exact h.ballots k hk _ hmem
    · rw [hown]
      exact h.own hk

/-- The ballots stored after a turn. -/
theorem KnownInv.ballots_turn (h : KnownInv S s) {me : MPEvent} (hk : k ∈ S.nodes) (hin : s.Input S k me)
    (hturn : Turn (s.node k) me c out) {b : Ballot} (hb : b ∈ c.ballots) : Known S s b := by
  have hnone : c.ballots = [] → Known S s b := fun hnil => by
    rw [hnil] at hb
    cases hb
  cases hturn with
  | other _ _ _ _ _ ballots => exact h.ballots k hk b (ballots ▸ hb)
  | answer => exact h.ballots k hk b hb
  | collect m _ _ _ _ _ ballots =>
    rw [ballots] at hb
    rcases List.mem_append.mp hb with hb | hb
    · exact h.ballots k hk b hb
    · obtain ⟨j, hj, hsent⟩ := hin
      rw [List.mem_singleton.mp hb]
      exact (h.replies j hj k m hsent).1
  | lapse _ _ _ next => exact hnone next.ballots
  | drop _ _ _ next => exact hnone next.ballots
  | follow _ _ _ next => exact hnone next.ballots

theorem KnownInv.step (h : KnownInv S s) (hok : Unwrapped S s e) (hstep : s.step S e = some t) :
    KnownInv S t := by
  have hle := currentBallot_le_step hok hstep
  have hmono : ∀ b, Known S s b → Known S t b := fun b hb => hb.mono hle
  obtain ⟨k, me, c, out, rfl, hk, hin, hturn, rfl⟩ := turn_of_step hstep
  refine ⟨fun i => ?_, fun i hi b hb => hmono b ?_, fun i hi b hb => hmono b ?_, fun j hj i m hm => ?_⟩
  · by_cases hik : i = k
    · subst hik
      rw [node_set_self]
      rcases Turn.ballot hturn hok.1 hk with heq | ⟨b, -, -, heq, -⟩
      · rw [heq]
        exact h.pid i
      · rw [heq]
        exact h.pid i
    · rw [node_set_of_ne hik]
      exact h.pid i
  · by_cases hik : i = k
    · subst hik
      rw [node_set_self] at hb
      exact h.leader_turn hi hin hturn hb
    · rw [node_set_of_ne hik] at hb
      exact h.leader i hi b hb
  · by_cases hik : i = k
    · subst hik
      rw [node_set_self] at hb
      exact h.ballots_turn hi hin hturn hb
    · rw [node_set_of_ne hik] at hb
      exact h.ballots i hi b hb
  · rcases mem_outs_set hm with hold | ⟨rfl, hnew⟩
    · obtain ⟨hb, hl⟩ := h.replies j hj i m hold
      exact ⟨hmono _ hb, hl.imp_right (hmono _)⟩
    · obtain ⟨-, hb, hl⟩ := hturn.outs.2 i m hnew
      rw [hb, hl]
      refine ⟨hmono _ (h.own hk), ?_⟩
      cases hleader : (s.node j).leader with
      | none => exact Or.inl rfl
      | some b => exact Or.inr (hmono b (h.leader j hk b hleader))

theorem knownInv_of_unwrapped (hS : Agreed S) (h : (machine S).ReachableUnder (Unwrapped S) s) : KnownInv S s :=
  h.invariant (P := KnownInv S) (knownInv_init hS) fun _ _ _ _ hok hs hstep => hs.step hok hstep

end MPElection

end OmniPaxosBench.LeaderElection
