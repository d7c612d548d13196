import OmniPaxosBench.Lib.HashMap
import OmniPaxosBench.MultiPaxos.Messages
import OmniPaxosBench.Partition

/-! # Multi-Paxos: the acceptor

An acceptor keeps the highest round it has seen and, per slot, its latest vote; a vote overwrites the
one before. A handler returns `none` where the code panics (an index without an actor path).

The two inversion lemmas `handlePhase1a_cases` and `handlePhase2a_cases` say all a handler can do:
refuse and change nothing, or promise respectively vote. -/

namespace OmniPaxosBench.MultiPaxos

/-- The latest vote in a slot (`State` in `acceptor.rs`). -/
structure VoteState where
  voteRound : ℕ
  voteValue : CommandBatchOrNoop
  deriving DecidableEq, Repr

structure Acceptor extends Partition where
  index : ℕ
  round : ℕ
  states : Std.TreeMap ℕ VoteState
  maxVotedSlot : ℕ
  leaders : List ℕ
  proxyLeaders : List ℕ

/-- The messages an acceptor sends. -/
inductive AcceptorOut
  | toLeader (pid : ℕ) (m : LeaderInbound)
  | toProxyLeader (pid : ℕ) (m : Phase2b)
  deriving DecidableEq, Repr

namespace Acceptor

/-- `Acceptor::with`. -/
def new (pid : ℕ) (leaders proxyLeaders : List ℕ) : Acceptor where
  index := pid
  round := 0
  states := ∅
  maxVotedSlot := 0
  leaders := leaders
  proxyLeaders := proxyLeaders

variable (a : Acceptor)

/-- The votes in the slots from `chosenWatermark` on, in increasing order of the slots. -/
def report (chosenWatermark : ℕ) : List Phase1bSlotInfo :=
  (a.states.toList.filter fun x => chosenWatermark ≤ x.1).map fun x =>
    ⟨x.1, x.2.voteRound, x.2.voteValue⟩

def handlePhase1a (m : Phase1a) : Option (Acceptor × List AcceptorOut) :=
  if m.src ∉ a.leaders then none
  else if m.src ∈ a.disconnectedPeers then some (a, [])
  else if m.round < a.round then some (a, [.toLeader m.src (.nack ⟨a.round⟩)])
  else
    let a := { a with round := m.round }
    some (a, [.toLeader m.src (.phase1b ⟨a.index, a.round, a.report m.chosenWatermark⟩)])

/-- Record the vote for `m`. -/
def vote (m : Phase2a) : Acceptor :=
  { a with
    round := m.round
    states := a.states.insert m.slot ⟨m.round, m.commandBatchOrNoop⟩
    maxVotedSlot := max a.maxVotedSlot m.slot }

def handlePhase2a (m : Phase2a) : Option (Acceptor × List AcceptorOut) :=
  if m.src ∈ a.disconnectedPeers then some (a, [])
  else if m.round < a.round then
    if m.src ∈ a.leaders then some (a, [.toLeader m.src (.nack ⟨a.round⟩)]) else none
  else if m.src ∈ a.proxyLeaders then
    some (a.vote m, [.toProxyLeader m.src ⟨a.index, m.slot, m.round⟩])
  else none

/-- The messages of an acceptor that refuses: none, or a `Nack` with its round. -/
def Refusal (out : List AcceptorOut) : Prop :=
  out = [] ∨ ∃ pid, out = [.toLeader pid (.nack ⟨a.round⟩)]

variable {a} {a' : Acceptor} {out : List AcceptorOut}

theorem handlePhase1a_cases {m : Phase1a} (h : a.handlePhase1a m = some (a', out)) :
    (a' = a ∧ a.Refusal out) ∨
      (a.round ≤ m.round ∧ a' = { a with round := m.round } ∧
        out = [.toLeader m.src (.phase1b ⟨a.index, m.round, a.report m.chosenWatermark⟩)]) := by
  unfold handlePhase1a at h
  split_ifs at h with h1 h2 h3
  · cases h; exact Or.inl ⟨rfl, Or.inl rfl⟩
  · cases h; exact Or.inl ⟨rfl, Or.inr ⟨_, rfl⟩⟩
  · cases h; exact Or.inr ⟨not_lt.mp h3, rfl, rfl⟩

theorem handlePhase2a_cases {m : Phase2a} (h : a.handlePhase2a m = some (a', out)) :
    (a' = a ∧ a.Refusal out) ∨
      (a.round ≤ m.round ∧ a' = a.vote m ∧
        out = [.toProxyLeader m.src ⟨a.index, m.slot, m.round⟩]) := by
  unfold handlePhase2a at h
  split_ifs at h with h1 h2 h3 h4
  · cases h; exact Or.inl ⟨rfl, Or.inl rfl⟩
  · cases h; exact Or.inl ⟨rfl, Or.inr ⟨_, rfl⟩⟩
  · cases h; exact Or.inr ⟨not_lt.mp h2, rfl, rfl⟩

theorem mem_report {chosenWatermark : ℕ} {i : Phase1bSlotInfo} :
    i ∈ a.report chosenWatermark ↔
      chosenWatermark ≤ i.slot ∧ a.states[i.slot]? = some ⟨i.voteRound, i.voteValue⟩ := by
  simp only [report, List.mem_map, List.mem_filter, decide_eq_true_eq]
  constructor
  · rintro ⟨⟨s, st⟩, ⟨hmem, hle⟩, rfl⟩
    exact ⟨hle, Std.TreeMap.mem_toList_iff_getElem?_eq_some.mp hmem⟩
  · rintro ⟨hle, hget⟩
    exact ⟨(i.slot, ⟨i.voteRound, i.voteValue⟩),
      ⟨Std.TreeMap.mem_toList_iff_getElem?_eq_some.mpr hget, hle⟩, rfl⟩

@[simp] theorem vote_round (m : Phase2a) : (a.vote m).round = m.round := rfl

@[simp] theorem vote_index (m : Phase2a) : (a.vote m).index = a.index := rfl

theorem vote_states (m : Phase2a) (s : ℕ) :
    (a.vote m).states[s]? = if s = m.slot then some ⟨m.round, m.commandBatchOrNoop⟩
      else a.states[s]? := by
  rw [vote, Std.TreeMap.getElem?_insert]
  simp only [Nat.compare_eq_eq]
  split_ifs with h1 h2 h2
  · rfl
  · exact absurd h1.symm h2
  · exact absurd h2.symm h1
  · rfl

end Acceptor

end OmniPaxosBench.MultiPaxos
