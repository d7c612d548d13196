import OmniPaxosBench.Lib.Machine
import OmniPaxosBench.Lib.Voting
import OmniPaxosBench.MultiPaxos.Acceptor
import OmniPaxosBench.MultiPaxos.Leader
import OmniPaxosBench.MultiPaxos.ProxyLeader

/-! # Multi-Paxos: acceptors and proxy leaders

The half of the system that votes: `n` acceptors and `n` proxy leaders. What comes from the leaders
(`Phase1a` messages, and the `Phase2a` messages handed to the proxy leaders) is unconstrained. A
message that was sent can be delivered any number of times, at any time or never, so delay, loss,
duplication and reordering are all covered.

Besides the components the state records what has happened: the messages sent, the `Phase2a`s handed
over, the promises, the votes and the `Chosen` messages. No handler reads these lists, except that
only a message that was sent is delivered. -/

namespace OmniPaxosBench.MultiPaxos

open OmniPaxosBench.Lib

/-- The pids `1, …, n`. -/
def pids (n : ℕ) : List ℕ := List.range' 1 n

theorem mem_pids {n i : ℕ} : i ∈ pids n ↔ 1 ≤ i ∧ i ≤ n := by
  simp only [pids, List.mem_range'_1]; omega

theorem card_pids (n : ℕ) : (pids n).toFinset.card = n := by
  rw [pids, List.toFinset_card_of_nodup List.nodup_range', List.length_range']

/-- An answer of `handle_phase1a`: the message answered, the answer, and whether its acceptor had
voted in the round of the message before. -/
structure Promise where
  phase1a : Phase1a
  phase1b : Phase1b
  votedBefore : Bool
  deriving DecidableEq, Repr

/-- A `Chosen` message sent, with the round of the `Phase2a` it rests on. -/
structure ChosenSent where
  proxyLeader : ℕ
  round : ℕ
  replica : ℕ
  chosen : Chosen
  deriving DecidableEq, Repr

structure Synod where
  acceptor : ℕ → Acceptor
  proxyLeader : ℕ → ProxyLeader
  /-- `Phase2a`s sent by proxy leaders, with the acceptor they go to. -/
  toAcceptors : List (ℕ × Phase2a)
  acceptorOuts : List AcceptorOut
  /-- `Phase2a`s handed to proxy leaders, with the proxy leader. -/
  proposals : List (ℕ × Phase2a)
  promises : List Promise
  /-- `Phase2a`s voted for, with the acceptor. -/
  votes : List (ℕ × Phase2a)
  chosen : List ChosenSent

inductive SynodEvent
  /-- A `Phase1a` reaches an acceptor. -/
  | phase1a (acceptor : ℕ) (m : Phase1a)
  /-- A `Phase2a` is handed to a proxy leader. -/
  | propose (proxyLeader : ℕ) (m : Phase2a)
  | phase2a (acceptor : ℕ) (m : Phase2a)
  | phase2b (proxyLeader : ℕ) (m : Phase2b)
  | acceptorPartition (acceptor : ℕ) (e : PartitionEvent)
  | proxyLeaderPartition (proxyLeader : ℕ) (e : PartitionEvent)
  deriving DecidableEq, Repr

namespace Synod

def init (n : ℕ) : Synod where
  acceptor pid := Acceptor.new pid (pids n) (pids n)
  proxyLeader _ := ProxyLeader.new (pids n) (pids n)
  toAcceptors := []
  acceptorOuts := []
  proposals := []
  promises := []
  votes := []
  chosen := []

variable (s : Synod)

/-- Acceptor `a` has voted in round `r`. -/
def hasVoted (a r : ℕ) : Bool := s.votes.any fun v => v.1 = a ∧ v.2.round = r

def stepPhase1a (a : ℕ) (m : Phase1a) : Option Synod :=
  ((s.acceptor a).handlePhase1a m).map fun (acc, out) =>
    { s with
      acceptor := Function.update s.acceptor a acc
      acceptorOuts := s.acceptorOuts ++ out
      promises := s.promises ++ out.filterMap fun
        | .toLeader _ (.phase1b b) => some ⟨m, b, s.hasVoted a m.round⟩
        | _ => none }

def stepPropose (p : ℕ) (m : Phase2a) : Synod :=
  let (proxy, out) := (s.proxyLeader p).handlePhase2a m
  { s with
    proxyLeader := Function.update s.proxyLeader p proxy
    toAcceptors := s.toAcceptors ++ out
    proposals := s.proposals ++ [(p, m)] }

def stepPhase2a (a : ℕ) (m : Phase2a) : Option Synod :=
  ((s.acceptor a).handlePhase2a m).map fun (acc, out) =>
    { s with
      acceptor := Function.update s.acceptor a acc
      acceptorOuts := s.acceptorOuts ++ out
      votes := s.votes ++ out.filterMap fun
        | .toProxyLeader _ _ => some (a, m)
        | _ => none }

def stepPhase2b (p : ℕ) (m : Phase2b) : Synod :=
  let (proxy, out) := (s.proxyLeader p).handlePhase2b m
  { s with
    proxyLeader := Function.update s.proxyLeader p proxy
    chosen := s.chosen ++ out.map fun (replica, c) => ⟨p, m.round, replica, c⟩ }

/-- One event; messages within the half are delivered only if they were sent. -/
def step (n : ℕ) : SynodEvent → Option Synod
  | .phase1a a m => if a ∈ pids n then s.stepPhase1a a m else none
  | .propose p m => if p ∈ pids n then some (s.stepPropose p m) else none
  | .phase2a a m => if (a, m) ∈ s.toAcceptors then s.stepPhase2a a m else none
  | .phase2b p m =>
    if .toProxyLeader p m ∈ s.acceptorOuts then some (s.stepPhase2b p m) else none
  | .acceptorPartition a e =>
    ((s.acceptor a).toPartition.handlePartition e).map fun part =>
      { s with acceptor := Function.update s.acceptor a { s.acceptor a with toPartition := part } }
  | .proxyLeaderPartition p e =>
    ((s.proxyLeader p).toPartition.handlePartition e).map fun part =>
      { s with
        proxyLeader := Function.update s.proxyLeader p { s.proxyLeader p with toPartition := part } }

/-- The machine of `n` acceptors and `n` proxy leaders. -/
def machine (n : ℕ) : Machine Synod SynodEvent := ⟨init n, fun s e => s.step n e⟩

/-! ### What a step can do -/

/-- `acc` differs from `a` in the simulated partition at most. -/
def SameAcceptor (a acc : Acceptor) : Prop :=
  acc.index = a.index ∧ acc.round = a.round ∧ acc.states = a.states

/-- `proxy` differs from `p` in the simulated partition at most. -/
def SameProxy (p proxy : ProxyLeader) : Prop :=
  proxy.acceptors = p.acceptors ∧ proxy.states = p.states ∧ proxy.majority = p.majority

/-- The effect of the steps: nothing of interest, a promise, a proposal that is already known, a new
proposal, a vote, an answer counted, and a majority reached. -/
inductive Move (n : ℕ) (s : Synod) : Synod → Prop
  | refuse (a : ℕ) (acc : Acceptor) (out : List AcceptorOut) (same : SameAcceptor (s.acceptor a) acc)
      (nacks : ∀ o ∈ out, ∃ pid m, o = .toLeader pid (.nack m)) :
      Move n s { s with
        acceptor := Function.update s.acceptor a acc
        acceptorOuts := s.acceptorOuts ++ out }
  | proxyQuiet (p : ℕ) (proxy : ProxyLeader) (same : SameProxy (s.proxyLeader p) proxy) :
      Move n s { s with proxyLeader := Function.update s.proxyLeader p proxy }
  | promise (a : ℕ) (m : Phase1a) (ha : a ∈ pids n) (hr : (s.acceptor a).round ≤ m.round)
      (b : Phase1b) (hb : b = ⟨(s.acceptor a).index, m.round, (s.acceptor a).report m.chosenWatermark⟩) :
      Move n s { s with
        acceptor := Function.update s.acceptor a { s.acceptor a with round := m.round }
        acceptorOuts := s.acceptorOuts ++ [.toLeader m.src (.phase1b b)]
        promises := s.promises ++ [⟨m, b, s.hasVoted a m.round⟩] }
  | known (p : ℕ) (m : Phase2a) : Move n s { s with proposals := s.proposals ++ [(p, m)] }
  | propose (p : ℕ) (m : Phase2a) :
      Move n s { s with
        proxyLeader := Function.update s.proxyLeader p
          ((s.proxyLeader p).setState ⟨m.slot, m.round⟩ (.pending ⟨m, ∅⟩))
        toAcceptors := s.toAcceptors ++
          ((s.proxyLeader p).connected (s.proxyLeader p).acceptors).map fun pid => (pid, m)
        proposals := s.proposals ++ [(p, m)] }
  | vote (a : ℕ) (m : Phase2a) (hm : (a, m) ∈ s.toAcceptors) (hr : (s.acceptor a).round ≤ m.round) :
      Move n s { s with
        acceptor := Function.update s.acceptor a ((s.acceptor a).vote m)
        acceptorOuts := s.acceptorOuts ++
          [.toProxyLeader m.src ⟨(s.acceptor a).index, m.slot, m.round⟩]
        votes := s.votes ++ [(a, m)] }
  | count (p : ℕ) (m : Phase2b) (hm : .toProxyLeader p m ∈ s.acceptorOuts) (pending : Pending)
      (hp : (s.proxyLeader p).states.lookup ⟨m.slot, m.round⟩ = some (.pending pending)) :
      Move n s { s with
        proxyLeader := Function.update s.proxyLeader p
          ((s.proxyLeader p).setState ⟨m.slot, m.round⟩
            (.pending ⟨pending.phase2a, pending.phase2bs.insert m.acceptorIndex m⟩)) }
  | choose (p : ℕ) (m : Phase2b) (hm : .toProxyLeader p m ∈ s.acceptorOuts) (pending : Pending)
      (hp : (s.proxyLeader p).states.lookup ⟨m.slot, m.round⟩ = some (.pending pending))
      (hmaj : (s.proxyLeader p).majority ≤ HashMap.len (pending.phase2bs.insert m.acceptorIndex m)) :
      Move n s { s with
        proxyLeader := Function.update s.proxyLeader p
          ((s.proxyLeader p).setState ⟨m.slot, m.round⟩ .done)
        chosen := s.chosen ++ ((s.proxyLeader p).connected (s.proxyLeader p).replicas).map fun pid =>
          ⟨p, m.round, pid, m.slot, pending.phase2a.commandBatchOrNoop⟩ }

theorem Move.stay {n : ℕ} (s : Synod) : Move n s s := by
  simpa using Move.proxyQuiet (n := n) (s := s) 0 (s.proxyLeader 0) ⟨rfl, rfl, rfl⟩

variable {s}

theorem stepPhase1a_move {n a : ℕ} {m : Phase1a} {t : Synod} (ha : a ∈ pids n)
    (h : s.stepPhase1a a m = some t) : Move n s t := by
  obtain ⟨⟨acc, out⟩, hacc, rfl⟩ := Option.map_eq_some_iff.mp h
  rcases Acceptor.handlePhase1a_cases hacc with ⟨rfl, rfl | ⟨pid, rfl⟩⟩ | ⟨hr, rfl, rfl⟩
  · simpa using Move.refuse (n := n) (s := s) a _ [] ⟨rfl, rfl, rfl⟩ (by simp)
  · simpa using Move.refuse (n := n) (s := s) a _ _ ⟨rfl, rfl, rfl⟩
      (fun o ho => ⟨_, _, List.mem_singleton.mp ho⟩)
  · exact Move.promise a m ha hr _ rfl

theorem stepPhase2a_move {n a : ℕ} {m : Phase2a} {t : Synod} (hm : (a, m) ∈ s.toAcceptors)
    (h : s.stepPhase2a a m = some t) : Move n s t := by
  obtain ⟨⟨acc, out⟩, hacc, rfl⟩ := Option.map_eq_some_iff.mp h
  rcases Acceptor.handlePhase2a_cases hacc with ⟨rfl, rfl | ⟨pid, rfl⟩⟩ | ⟨hr, rfl, rfl⟩
  · simpa using Move.refuse (n := n) (s := s) a _ [] ⟨rfl, rfl, rfl⟩ (by simp)
  · simpa using Move.refuse (n := n) (s := s) a _ _ ⟨rfl, rfl, rfl⟩
      (fun o ho => ⟨_, _, List.mem_singleton.mp ho⟩)
  · exact Move.vote a m hm hr

theorem stepPropose_move {n : ℕ} (p : ℕ) (m : Phase2a) : Move n s (s.stepPropose p m) := by
  unfold stepPropose
  rcases ProxyLeader.handlePhase2a_cases (s.proxyLeader p) m with h | ⟨-, h⟩
  · rw [h]; simpa using Move.known (n := n) (s := s) p m
  · rw [h]; exact Move.propose p m

theorem stepPhase2b_move {n p : ℕ} {m : Phase2b} (hm : .toProxyLeader p m ∈ s.acceptorOuts) :
    Move n s (s.stepPhase2b p m) := by
  unfold stepPhase2b
  rcases ProxyLeader.handlePhase2b_cases (s.proxyLeader p) m with h | ⟨pending, hp, h | ⟨hmaj, h⟩⟩
  · rw [h]; simpa using Move.stay (n := n) s
  · rw [h]; simpa using Move.count (n := n) p m hm pending hp
  · rw [h]; simpa [Function.comp_def] using Move.choose (n := n) p m hm pending hp hmaj

/-- **Every step is one of the moves.** -/
theorem step_move {n : ℕ} {e : SynodEvent} {t : Synod} (h : s.step n e = some t) : Move n s t := by
  cases e with
  | phase1a a m =>
    simp only [step] at h
    split_ifs at h with ha
    exact stepPhase1a_move ha h
  | propose p m =>
    simp only [step] at h
    split_ifs at h
    cases h; exact stepPropose_move p m
  | phase2a a m =>
    simp only [step] at h
    split_ifs at h with hm
    exact stepPhase2a_move hm h
  | phase2b p m =>
    simp only [step] at h
    split_ifs at h with hm
    cases h; exact stepPhase2b_move hm
  | acceptorPartition a e =>
    obtain ⟨part, -, rfl⟩ := Option.map_eq_some_iff.mp h
    simpa using Move.refuse (n := n) (s := s) a { s.acceptor a with toPartition := part } []
      ⟨rfl, rfl, rfl⟩ (by simp)
  | proxyLeaderPartition p e =>
    obtain ⟨part, -, rfl⟩ := Option.map_eq_some_iff.mp h
    exact Move.proxyQuiet p _ ⟨rfl, rfl, rfl⟩

end Synod

end OmniPaxosBench.MultiPaxos
