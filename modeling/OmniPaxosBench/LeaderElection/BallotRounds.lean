import OmniPaxosBench.LeaderElection.BallotElection
import OmniPaxosBench.LeaderElection.BallotQuorum
import OmniPaxosBench.Lib.Rounds

/-! # Ballot leader election: heartbeat rounds

A reply counts only if it carries the number of the present round of the node that asked. As long as
no round number wraps, the reply was then given after that round had begun: `Turn` lists the events
once more, with what they do to the round, and `pending_step` says how a step changes the replies that
count. -/

namespace OmniPaxosBench.LeaderElection

open OmniPaxosBench.Lib

namespace BallotLeaderComp

variable {c c' : BallotLeaderComp} {e : BleEvent} {out : List BleOut}

/-- What lasts longer than a round is unchanged. -/
structure Same (c c' : BallotLeaderComp) : Prop where
  ballot : c'.currentBallot = c.currentBallot
  leader : c'.leader = c.leader
  candidate : c'.candidate = c.candidate
  hbRound : c'.hbRound = c.hbRound

/-- No message of a round and no indication. -/
def IsOther : BleOut → Prop
  | .peerStop _ _ | .stopReply => True
  | _ => False

/-- An indication, or a request of round `r`. -/
def OfRound (r : ℕ) : BleOut → Prop
  | .request _ round => round = r
  | .indication _ => True
  | _ => False

/-- The largest ballot of a candidate, the node among them. -/
def top (c : BallotLeaderComp) : Ballot :=
  topBallot (candidates (c.ballots ++ [(c.currentBallot, true)]))

/-- The round is over, and the next one has begun. -/
structure NextRound (c c' : BallotLeaderComp) (out : List BleOut) : Prop where
  hbRound : c'.hbRound = (c.hbRound + 1) % 2 ^ 32
  ballots : c'.ballots = []
  outs : ∀ o ∈ out, OfRound c'.hbRound o

/-- The events of a node: one outside of the rounds, an answer to a request, a reply stored, and the
three ways in which a round ends. -/
inductive Turn (c : BallotLeaderComp) : BleEvent → BallotLeaderComp → List BleOut → Prop
  | other (e : BleEvent) (c' : BallotLeaderComp) (out : List BleOut) (same : Same c c')
      (ballots : c'.ballots = c.ballots) (outs : ∀ o ∈ out, IsOther o) (quiet : ∀ id, e ≠ .timeout id) :
      Turn c e c' out
  | answer (sender round : ℕ) :
      Turn c (.request sender round) c [.reply sender ⟨round, c.currentBallot, c.candidate⟩]
  | collect (m : HeartbeatReply) (round : m.round = c.hbRound) :
      Turn c (.reply m) { c with ballots := c.ballots ++ [(m.ballot, m.candidate)] } []
  | lapse (id : ℕ) (c' : BallotLeaderComp) (out : List BleOut) (next : NextRound c c' out)
      (quorum : ¬ c.HasQuorum) (ballot : c'.currentBallot = c.currentBallot)
      (leader : c'.leader = c.leader) (candidate : c'.candidate = false)
      (silent : Election.indicationsOf out = []) : Turn c (.timeout id) c' out
  | drop (id : ℕ) (c' : BallotLeaderComp) (out : List BleOut) (next : NextRound c c' out)
      (quorum : c.HasQuorum) (below : c.top < c.leader.getD default) (leader : c'.leader = none)
      (candidate : c'.candidate = true) : Turn c (.timeout id) c' out
  | follow (id : ℕ) (c' : BallotLeaderComp) (out : List BleOut) (next : NextRound c c' out)
      (quorum : c.HasQuorum) (ballot : c'.currentBallot = c.currentBallot)
      (leader : c'.leader = some c.top) (candidate : c'.candidate = true)
      (silent : c.leader = some c.top → Election.indicationsOf out = []) : Turn c (.timeout id) c' out

theorem ofRound_newHbRound {o : BleOut} (h : o ∈ c.newHbRound.2) :
    OfRound c.newHbRound.1.hbRound o := by
  obtain ⟨peer, -, rfl⟩ := List.mem_map.mp h
  rfl

theorem nextRound_newHbRound {c₀ : BallotLeaderComp} (pre : List BleOut) (hround : c₀.hbRound = c.hbRound)
    (hballots : c₀.ballots = []) (hpre : ∀ o ∈ pre, ∃ l, o = .indication l) :
    NextRound c c₀.newHbRound.1 (pre ++ c₀.newHbRound.2) := by
  refine ⟨?_, hballots, fun o ho => ?_⟩
  · rw [← hround]; rfl
  · rcases List.mem_append.mp ho with ho | ho
    · obtain ⟨l, rfl⟩ := hpre o ho
      trivial
    · exact ofRound_newHbRound ho

theorem indicationsOf_newHbRound (c : BallotLeaderComp) :
    Election.indicationsOf c.newHbRound.2 = [] :=
  Election.indicationsOf_notes fun _ ho => isNote_newHbRound ho

theorem hbTimeout_turn (id : ℕ) (timers : Timers Unit) :
    Turn c (.timeout id) { c with timers := timers }.hbTimeout.1
      { c with timers := timers }.hbTimeout.2 := by
  unfold hbTimeout
  split_ifs with hq
  · unfold checkLeader
    dsimp only
    split_ifs with hlt hne
    · exact .drop id _ _ (nextRound_newHbRound _ rfl rfl fun o ho => by cases ho) hq hlt rfl rfl
    · refine .follow id _ _ (nextRound_newHbRound _ rfl rfl fun o ho => ?_) hq rfl rfl rfl
        fun h => absurd h hne
      exact ⟨_, List.mem_singleton.mp ho⟩
    · rw [ne_eq, not_not] at hne
      refine .follow id _ _ (nextRound_newHbRound _ rfl rfl fun o ho => by cases ho) hq rfl ?_ rfl
        fun _ => indicationsOf_newHbRound _
      exact hne
  · refine .lapse id _ _ ?_ hq rfl rfl rfl (indicationsOf_newHbRound _)
    exact nextRound_newHbRound [] rfl rfl fun o ho => by cases ho

theorem handleStop_turn (pid : ℕ) : Turn c (.stop pid) (c.handleStop pid).1 (c.handleStop pid).2 := by
  have hstop : ∀ d : BallotLeaderComp, Same d d.stopTimer ∧ d.stopTimer.ballots = d.ballots := by
    intro d
    unfold stopTimer
    split <;> exact ⟨⟨rfl, rfl, rfl, rfl⟩, rfl⟩
  obtain ⟨⟨h1, h2, h3, h4⟩, h5⟩ := hstop { c with disconnectedPeers := [] }
  have hother : ∀ o ∈ { c with disconnectedPeers := [] }.stopTimer.peers.map
      (fun peer => BleOut.peerStop peer pid), IsOther o := by
    intro o ho
    obtain ⟨peer, -, rfl⟩ := List.mem_map.mp ho
    trivial
  unfold handleStop
  dsimp only
  split_ifs with hlen
  · refine .other _ _ _ ⟨h1, h2, h3, h4⟩ h5 (fun o ho => ?_) nofun
    rcases List.mem_append.mp ho with ho | ho
    · exact hother o ho
    · rw [List.mem_singleton.mp ho]; trivial
  · exact .other _ _ _ ⟨h1, h2, h3, h4⟩ h5 hother nofun

theorem handlePeerStop_turn {pid : ℕ} (h : c.handlePeerStop pid = some (c', out)) :
    Turn c (.peerStop pid) c' out := by
  unfold handlePeerStop at h
  dsimp only at h
  split_ifs at h
  · cases h
    refine .other _ _ _ ⟨rfl, rfl, rfl, rfl⟩ rfl (fun o ho => ?_) nofun
    rw [List.mem_singleton.mp ho]; trivial
  · cases h
    exact .other _ _ _ ⟨rfl, rfl, rfl, rfl⟩ rfl (fun o ho => by cases ho) nofun

/-- **Every event is one of `Turn`.** -/
theorem handle_turn (h : c.handle e = some (c', out)) : Turn c e c' out := by
  have hnil : ∀ o ∈ ([] : List BleOut), IsOther o := fun o ho => by cases ho
  cases e with
  | timeout id =>
    obtain ⟨⟨_, timers⟩, -, heq⟩ := Option.map_eq_some_iff.mp h
    have hturn := hbTimeout_turn (c := c) id timers
    dsimp only at heq
    rw [heq] at hturn
    exact hturn
  | request sender round =>
    have heq := Option.some.inj h
    unfold handleRequest at heq
    split_ifs at heq
    · cases heq
      exact .other _ _ _ ⟨rfl, rfl, rfl, rfl⟩ rfl hnil nofun
    · cases heq
      exact .answer sender round
  | reply m =>
    cases h
    unfold handleReply
    split_ifs with h1 h2 h3
    · exact .other _ _ _ ⟨rfl, rfl, rfl, rfl⟩ rfl hnil nofun
    · exact .other _ _ _ ⟨rfl, rfl, rfl, rfl⟩ rfl hnil nofun
    · exact .collect m h3
    · exact .other _ _ _ ⟨rfl, rfl, rfl, rfl⟩ rfl hnil nofun
  | stop pid =>
    have hturn := handleStop_turn (c := c) pid
    rw [Option.some.inj h] at hturn
    exact hturn
  | peerStop pid => exact handlePeerStop_turn h
  | partition e =>
    obtain ⟨part, -, heq⟩ := Option.map_eq_some_iff.mp h
    cases heq
    exact .other _ _ _ ⟨rfl, rfl, rfl, rfl⟩ rfl hnil nofun

/-- A turn sends no request that is ahead of the present round, and replies with the number asked for. -/
theorem Turn.outs (hturn : Turn c e c' out) : (∀ p r, .request p r ∈ out → r = c'.hbRound) ∧
    (∀ p m, .reply p m ∈ out → e = .request p m.round ∧ m.ballot = c.currentBallot ∧
      m.candidate = c.candidate ∧ c' = c) := by
  have hround : (∀ o ∈ out, OfRound c'.hbRound o) → (∀ p r, .request p r ∈ out → r = c'.hbRound) ∧
      (∀ p m, .reply p m ∈ out → e = .request p m.round ∧ m.ballot = c.currentBallot ∧
        m.candidate = c.candidate ∧ c' = c) :=
    fun h => ⟨fun p r hmem => h _ hmem, fun p m hmem => (h _ hmem).elim⟩
  cases hturn with
  | other _ _ _ _ _ outs _ => exact ⟨fun p r hmem => (outs _ hmem).elim, fun p m hmem => (outs _ hmem).elim⟩
  | answer sender round =>
    refine ⟨fun p r hmem => ?_, fun p m hmem => ?_⟩
    · cases List.mem_singleton.mp hmem
    · cases List.mem_singleton.mp hmem
      exact ⟨rfl, rfl, rfl, rfl⟩
  | collect m =>
    exact ⟨fun _ _ h => absurd h List.not_mem_nil, fun _ _ h => absurd h List.not_mem_nil⟩
  | lapse _ _ _ next => exact hround next.outs
  | drop _ _ _ next => exact hround next.outs
  | follow _ _ _ next => exact hround next.outs

/-- The round stays the same, or ends by a timeout. -/
theorem Turn.hbRound (hturn : Turn c e c' out) : (c'.hbRound = c.hbRound ∧ ∀ id, e ≠ .timeout id) ∨
    ((∃ id, e = .timeout id) ∧ NextRound c c' out) := by
  cases hturn with
  | other _ _ _ same _ _ quiet => exact Or.inl ⟨same.hbRound, quiet⟩
  | answer => exact Or.inl ⟨rfl, nofun⟩
  | collect => exact Or.inl ⟨rfl, nofun⟩
  | lapse id _ _ next => exact Or.inr ⟨⟨id, rfl⟩, next⟩
  | drop id _ _ next => exact Or.inr ⟨⟨id, rfl⟩, next⟩
  | follow id _ _ next => exact Or.inr ⟨⟨id, rfl⟩, next⟩

theorem NextRound.eq_succ (h : NextRound c c' out) (hlt : c.hbRound < 2 ^ 32 - 1) :
    c'.hbRound = c.hbRound + 1 := by
  rw [h.hbRound, Nat.mod_eq_of_lt (by omega)]

end BallotLeaderComp

namespace Election

open BallotLeaderComp

variable {S : Setup} {s t : Election} {i j k : ℕ} {c : BallotLeaderComp} {out : List BleOut}
  {e : ℕ × BleEvent}

variable (S) in
/-- No ballot number and no round number has reached `2 ^ 32 - 1`. -/
def Unwrapped (s : Election) (e : ℕ × BleEvent) : Prop :=
  Small S s e ∧ ∀ i ∈ S.nodes, (s.node i).hbRound < 2 ^ 32 - 1

instance (e : ℕ × BleEvent) : Decidable (Unwrapped S s e) := inferInstanceAs (Decidable (_ ∧ _))

theorem turn_of_step (h : s.step S e = some t) : ∃ k be c out, e = (k, be) ∧ k ∈ S.nodes ∧
    s.Input S k be ∧ Turn (s.node k) be c out ∧ t = s.set k c out := by
  obtain ⟨k, be⟩ := e
  simp only [step] at h
  split_ifs at h with hin
  obtain ⟨⟨c, out⟩, hc, rfl⟩ := Option.map_eq_some_iff.mp h
  exact ⟨k, be, c, out, rfl, hin.1, hin.2, handle_turn hc, rfl⟩

theorem nodeInv_of_unwrapped (h : (machine S).ReachableUnder (Unwrapped S) s) :
    ∀ j ∈ S.nodes, NodeInv S s j :=
  nodeInv_of_reachable (h.mono fun _ _ hok => hok.1)

/-- The ballot of a node never decreases. -/
theorem currentBallot_le_step (h : (machine S).ReachableUnder (Unwrapped S) s) (hok : Unwrapped S s e)
    (hstep : s.step S e = some t) (j : ℕ) : (s.node j).currentBallot ≤ (t.node j).currentBallot := by
  obtain ⟨i, be, c, out, rfl, hi, -, hm, rfl⟩ := step_cases hstep
  by_cases hj : j = i
  · subst hj
    rw [node_set_self]
    exact (currentBallot_le_move (nodeInv_of_unwrapped h) hok.1 hi hm).1
  · rw [node_set_of_ne hj]

/-! ### The rounds -/

variable (S) in
/-- The heartbeat rounds of the nodes. -/
def rounds : Rounds Election ℕ HeartbeatReply where
  round s i := (s.node i).hbRound
  Asked s i r := ∃ p, .request p r ∈ s.outs i
  Answered s i m := ∃ j ∈ S.nodes, .reply i m ∈ s.outs j
  number m := m.round

/-- The round of node `i` ends. -/
def Beats (i : ℕ) (e : ℕ × BleEvent) : Prop := ∃ id, e = (i, .timeout id)

theorem mem_outs_set {o : BleOut} (h : o ∈ (s.set k c out).outs j) :
    o ∈ s.outs j ∨ (j = k ∧ o ∈ out) := by
  by_cases hj : j = k
  · subst hj
    rw [outs_set_self, List.mem_append] at h
    exact h.imp_right fun h => ⟨rfl, h⟩
  · rw [outs_set_of_ne hj] at h
    exact Or.inl h

theorem request_start {p r : ℕ} (h : .request p r ∈ (S.start i).2) : r = (S.start i).1.hbRound := by
  have happ : (S.start i).2 = (S.create i).2 ++ (S.create i).1.onStart.2 := rfl
  rw [happ, List.mem_append] at h
  rcases h with h | h
  · unfold Setup.create at h
    cases hg : S.given i <;> simp [hg, setInitialLeader, new] at h
  · exact ofRound_newHbRound h

/-- A step in the rounds: a reply carries what its sender has before and after the step. -/
theorem rounds_step (hok : Unwrapped S s e) (hstep : s.step S e = some t) :
    (rounds S).Step (Beats · e) (fun _ m => ∃ k ∈ S.nodes, m.ballot = (s.node k).currentBallot ∧
      m.candidate = (s.node k).candidate ∧ t.node k = s.node k) s t := by
  obtain ⟨k, be, c, out, rfl, hk, hin, hturn, rfl⟩ := turn_of_step hstep
  refine ⟨fun i hi => ?_, fun i hi => ?_, fun i r hr => ?_, fun i m hm => ?_⟩
  · obtain ⟨id, hid⟩ := hi
    obtain ⟨rfl, rfl⟩ := Prod.mk.inj hid
    show ((s.set k c out).node k).hbRound = _
    rw [node_set_self]
    rcases hturn.hbRound with ⟨-, hquiet⟩ | ⟨-, hnext⟩
    · exact absurd rfl (hquiet id)
    · exact hnext.eq_succ (hok.2 k hk)
  · show ((s.set k c out).node i).hbRound = _
    by_cases hik : i = k
    · subst hik
      rw [node_set_self]
      rcases hturn.hbRound with ⟨heq, -⟩ | ⟨⟨id, rfl⟩, -⟩
      · exact heq
      · exact absurd ⟨id, rfl⟩ hi
    · rw [node_set_of_ne hik]
      rfl
  · obtain ⟨p, hp⟩ := hr
    rcases mem_outs_set hp with hold | ⟨rfl, hnew⟩
    · exact Or.inl ⟨p, hold⟩
    · refine Or.inr ?_
      show r = ((s.set i c out).node i).hbRound
      rw [node_set_self]
      exact hturn.outs.1 p r hnew
  · obtain ⟨j, hj, hmem⟩ := hm
    rcases mem_outs_set hmem with hold | ⟨rfl, hnew⟩
    · exact Or.inl ⟨j, hj, hold⟩
    · obtain ⟨rfl, hb, hcand, hsame⟩ := hturn.outs.2 i m hnew
      exact Or.inr ⟨⟨j, hin.2⟩, j, hj, hb, hcand, by rw [node_set_self, hsame]⟩

theorem sound_of_unwrapped (h : (machine S).ReachableUnder (Unwrapped S) s) : (rounds S).Sound s := by
  refine h.invariant (P := (rounds S).Sound) ⟨fun i r hr => ?_, fun i m hm => ?_⟩
    fun s e t _ hok hs hstep => (rounds_step hok hstep).sound hs
  · obtain ⟨p, hp⟩ := hr
    exact (request_start hp).le
  · obtain ⟨j, -, hmem⟩ := hm
    exact absurd hmem (not_reply_start S j i m)

/-! ### The replies that count -/

variable (S) in
/-- Node `i` has stored a reply of its present round with ballot `b` and flag `candidate`, or may still
get one. -/
def Pending (s : Election) (i : ℕ) (b : Ballot) (candidate : Bool) : Prop :=
  (b, candidate) ∈ (s.node i).ballots ∨
    ∃ j ∈ S.nodes, .reply i ⟨(s.node i).hbRound, b, candidate⟩ ∈ s.outs j

/-- A reply of the present round that has been sent. -/
theorem Pending.of_counts {m : HeartbeatReply} (h : (rounds S).Counts s i m) :
    Pending S s i m.ballot m.candidate := by
  obtain ⟨j, hj, hmem⟩ := h.1
  refine Or.inr ⟨j, hj, ?_⟩
  have hround : m.round = (s.node i).hbRound := h.2
  rw [← hround]
  exact hmem

/-- The ballots a node has stored after a step. -/
theorem mem_ballots_step (hstep : s.step S e = some t) {b : Ballot} {candidate : Bool}
    (hb : (b, candidate) ∈ (t.node i).ballots) : ¬ Beats i e ∧ Pending S s i b candidate := by
  obtain ⟨k, be, c, out, rfl, -, hin, hturn, rfl⟩ := turn_of_step hstep
  by_cases hik : i = k
  · subst hik
    rw [node_set_self] at hb
    have hkeep : (∀ id, be ≠ .timeout id) → ¬ Beats i (i, be) :=
      fun hquiet ⟨id, hid⟩ => hquiet id (congrArg Prod.snd hid)
    have hnone : c.ballots = [] → False := fun hnil => by
      rw [hnil] at hb
      cases hb
    cases hturn with
    | other _ _ _ _ ballots _ quiet => exact ⟨hkeep quiet, Or.inl (ballots ▸ hb)⟩
    | answer => exact ⟨hkeep nofun, Or.inl hb⟩
    | collect m hm =>
      refine ⟨hkeep nofun, ?_⟩
      rcases List.mem_append.mp hb with hb | hb
      · exact Or.inl hb
      · cases List.mem_singleton.mp hb
        exact .of_counts ⟨hin, hm⟩
    | lapse _ _ _ next => exact (hnone next.ballots).elim
    | drop _ _ _ next => exact (hnone next.ballots).elim
    | follow _ _ _ next => exact (hnone next.ballots).elim
  · rw [node_set_of_ne hik] at hb
    exact ⟨fun ⟨id, hid⟩ => hik (congrArg Prod.fst hid).symm, Or.inl hb⟩

/-- **The replies that count** after a step counted before it, or carry what a node has in both states;
after the end of a round there is none. -/
theorem pending_step (h : (machine S).ReachableUnder (Unwrapped S) s) (hok : Unwrapped S s e)
    (hstep : s.step S e = some t) {b : Ballot} {candidate : Bool}
    (hp : Pending S t i b candidate) : ¬ Beats i e ∧ (Pending S s i b candidate ∨
      ∃ k ∈ S.nodes, b = (s.node k).currentBallot ∧ candidate = (s.node k).candidate ∧
        t.node k = s.node k) := by
  rcases hp with hp | ⟨j, hj, hmem⟩
  · obtain ⟨hquiet, hp⟩ := mem_ballots_step hstep hp
    exact ⟨hquiet, Or.inl hp⟩
  · obtain ⟨hquiet, hcounts⟩ := (rounds_step hok hstep).counts (sound_of_unwrapped h)
      (show (rounds S).Counts t i ⟨(t.node i).hbRound, b, candidate⟩ from ⟨⟨j, hj, hmem⟩, rfl⟩)
    exact ⟨hquiet, hcounts.imp .of_counts id⟩

end Election

end OmniPaxosBench.LeaderElection
