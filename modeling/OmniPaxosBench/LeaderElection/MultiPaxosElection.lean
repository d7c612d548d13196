import OmniPaxosBench.LeaderElection.MultiPaxosLeaderComp
import OmniPaxosBench.Lib.Machine

/-! # Multi-Paxos style leader election: when leaders are monotone

Any number of nodes, each started with or without a leader. A message that was sent can be delivered
any number of times, at any time or never.

As long as a node keeps its leader, the leaders it indicates increase. When it gives its leader up, it
raises its own ballot above it, so the next check of the ballots finds a larger one; but the `leader`
field is empty then, and a reply that names the old leader is taken for one with a greater ballot.
`leaders_increase_iff` says that this is the only way in which the indications of a node can fail to
increase. -/

namespace OmniPaxosBench.LeaderElection

open OmniPaxosBench.Lib MultiPaxosLeaderComp

/-- The nodes and the leader each of them is started with, if any. -/
structure MPSetup where
  nodes : List ℕ
  initialLeader : ℕ → Option Leader

structure MPElection where
  node : ℕ → MultiPaxosLeaderComp
  /-- What each node has sent and triggered. -/
  outs : ℕ → List MPOut

namespace MPElection

def init (S : MPSetup) : MPElection where
  node i := (new (S.nodes.filter (· ≠ i)) i (S.initialLeader i)).onStart.1
  outs i := (new (S.nodes.filter (· ≠ i)) i (S.initialLeader i)).onStart.2

variable (S : MPSetup) (s : MPElection)

/-- The indications node `i` has triggered, in order. -/
def indications (i : ℕ) : List Leader := indicationsOf (s.outs i)

/-- The messages of the events of node `i` were sent to it. -/
def Input (i : ℕ) : MPEvent → Prop
  | .request sender round => sender ∈ S.nodes ∧ .request i round ∈ s.outs sender
  | .reply m => ∃ j ∈ S.nodes, .reply i m ∈ s.outs j
  | .peerStop pid => ∃ j ∈ S.nodes, .peerStop i pid ∈ s.outs j
  | _ => True

instance (i : ℕ) : ∀ e, Decidable (s.Input S i e)
  | .request _ _ => inferInstanceAs (Decidable (_ ∧ _))
  | .reply _ | .peerStop _ => inferInstanceAs (Decidable (∃ _ ∈ _, _))
  | .timeout _ | .stop _ | .partition _ => isTrue trivial

/-- Node `i` has become `c` and sent `out`. -/
def set (i : ℕ) (c : MultiPaxosLeaderComp) (out : List MPOut) : MPElection where
  node := Function.update s.node i c
  outs := Function.update s.outs i (s.outs i ++ out)

/-- An event at a node; `none` if it cannot happen. -/
def step : ℕ × MPEvent → Option MPElection
  | (i, e) =>
    if i ∈ S.nodes ∧ s.Input S i e then
      ((s.node i).handle e).map fun (c, out) => s.set i c out
    else none

def machine : Machine MPElection (ℕ × MPEvent) := ⟨init S, fun s e => s.step S e⟩

/-- No ballot number has reached `2 ^ 32 - 1`. -/
def Small (s : MPElection) (_ : ℕ × MPEvent) : Prop := ∀ i ∈ S.nodes,
  (s.node i).currentBallot.n < 2 ^ 32 - 1 ∧ ((s.node i).leader.getD default).n < 2 ^ 32 - 1

instance (e : ℕ × MPEvent) : Decidable (Small S s e) := inferInstanceAs (Decidable (∀ _ ∈ _, _))

/-- The ballots node `i` has indicated increase. -/
def Increasing (i : ℕ) : Prop := ((s.indications i).map Leader.round).Pairwise (· < ·)

instance (i : ℕ) : Decidable (s.Increasing i) := inferInstanceAs (Decidable (List.Pairwise _ _))

/-- The ballots every node has indicated increase. -/
def Monotone (s : MPElection) : Prop := ∀ i ∈ S.nodes, s.Increasing i

/-- A reply from which a node without a leader takes one over names a ballot above all that the node
has indicated. -/
def Fresh (s : MPElection) : ℕ × MPEvent → Prop
  | (i, .reply m) => i ∈ S.nodes ∧ s.Input S i (.reply m) → (s.node i).leader = none →
      (s.node i).TakesOver m → ∀ l ∈ s.indications i, l.round < m.currentLeader
  | _ => True

instance : ∀ e, Decidable (Fresh S s e)
  | (_, .reply _) => inferInstanceAs (Decidable (_ → _ → _ → _))
  | (_, .timeout _) | (_, .request _ _) | (_, .stop _) | (_, .peerStop _) | (_, .partition _) =>
    isTrue trivial

/-- What the indications of a node have to do with its leader and its ballot. -/
def Last (i : ℕ) : Prop := ∀ l ∈ s.indications i,
  (∃ b, (s.node i).leader = some b ∧ l.round ≤ b) ∨
    ((s.node i).leader = none ∧ l.round < (s.node i).currentBallot)

variable {S s} {t : MPElection} {i j : ℕ} {c : MultiPaxosLeaderComp} {out : List MPOut} {e : MPEvent}

theorem node_set_self : (s.set i c out).node i = c := Function.update_self ..

theorem node_set_of_ne (h : j ≠ i) : (s.set i c out).node j = s.node j := Function.update_of_ne h ..

theorem indications_set_self :
    (s.set i c out).indications i = s.indications i ++ indicationsOf out := by
  unfold indications
  rw [← indicationsOf_append]
  exact congrArg indicationsOf (Function.update_self ..)

theorem indications_set_of_ne (h : j ≠ i) : (s.set i c out).indications j = s.indications j := by
  exact congrArg indicationsOf (Function.update_of_ne h ..)

theorem step_cases {e : ℕ × MPEvent} (h : s.step S e = some t) :
    ∃ i me c out, e = (i, me) ∧ i ∈ S.nodes ∧ s.Input S i me ∧
      Move (s.node i) me c (indicationsOf out) ∧ t = s.set i c out := by
  obtain ⟨i, me⟩ := e
  simp only [step] at h
  split_ifs at h with hin
  obtain ⟨⟨c, out⟩, hc, rfl⟩ := Option.map_eq_some_iff.mp h
  exact ⟨i, me, c, out, rfl, hin.1, hin.2, handle_move hc, rfl⟩

theorem indications_init (S : MPSetup) (i : ℕ) : (init S).indications i = [] :=
  indicationsOf_newHbRound _

/-! ### Steps -/

/-- One more indication. -/
theorem increasing_append_singleton {ls : List Leader} {l' : Leader}
    (h : (ls.map Leader.round).Pairwise (· < ·)) :
    ((ls ++ [l']).map Leader.round).Pairwise (· < ·) ↔ ∀ l ∈ ls, l.round < l'.round := by
  rw [List.map_append, List.pairwise_append]
  constructor
  · rintro ⟨-, -, hlt⟩ l hl
    exact hlt _ (List.mem_map.mpr ⟨l, hl, rfl⟩) _ (by simp)
  · intro hlt
    refine ⟨h, List.pairwise_singleton .., fun x hx y hy => ?_⟩
    obtain ⟨l, hl, rfl⟩ := List.mem_map.mp hx
    rw [List.mem_singleton.mp hy]
    exact hlt l hl

theorem Increasing.before (h : (s.set i c out).Increasing i) : s.Increasing i := by
  unfold Increasing at h
  rw [indications_set_self, List.map_append, List.pairwise_append] at h
  exact h.1

/-- A ballot above the leader's and, without a leader, at least the node's own is above all that the
node has indicated. -/
theorem Last.lt (h : s.Last i) {b : Ballot} (hleader : ∀ b', (s.node i).leader = some b' → b' < b)
    (hown : (s.node i).leader = none → (s.node i).currentBallot ≤ b) :
    ∀ l ∈ s.indications i, l.round < b := by
  intro l hl
  rcases h l hl with ⟨b', hb', hle⟩ | ⟨hnone, hlt⟩
  · exact hle.trans_lt (hleader b' hb')
  · exact hlt.trans_le (hown hnone)

/-- If the indications of a node increase, then they are related to its leader as `Last` says. -/
theorem last_step (hsmall : Small S s (i, e)) (hi : i ∈ S.nodes) (hlast : s.Last i)
    (hm : Move (s.node i) e c (indicationsOf out)) (hinc : (s.set i c out).Increasing i) :
    (s.set i c out).Last i := by
  have hbefore := hinc.before
  unfold Increasing at hinc
  unfold Last
  rw [indications_set_self] at hinc ⊢
  rw [node_set_self]
  generalize indicationsOf out = ls at hm hinc ⊢
  -- a leader that was just indicated is the present one, and above those indicated before
  have hnew : ∀ {l' : Leader}, ls = [l'] → c.leader = some l'.round →
      ∀ l ∈ s.indications i ++ ls, (∃ b, c.leader = some b ∧ l.round ≤ b) ∨
        (c.leader = none ∧ l.round < c.currentBallot) := by
    intro l' hls hleader l hl
    rw [hls] at hinc hl
    refine Or.inl ⟨l'.round, hleader, ?_⟩
    rcases List.mem_append.mp hl with hl | hl
    · exact ((increasing_append_singleton hbefore).mp hinc l hl).le
    · rw [List.mem_singleton.mp hl]
  cases hm with
  | quiet _ _ ballot leader =>
    rw [List.append_nil, leader, ballot]
    exact hlast
  | drop id _ b had ballot leader =>
    intro l hl
    rw [List.append_nil] at hl
    refine Or.inr ⟨leader, ?_⟩
    have hle : l.round ≤ b := by
      rcases hlast l hl with ⟨b', hb', hle⟩ | ⟨hnone, -⟩
      · rw [had] at hb'
        cases hb'; exact hle
      · rw [had] at hnone; cases hnone
    have hn := Ballot.n_le hle
    have hb : b.n < 2 ^ 32 - 1 := by
      have h := (hsmall i hi).2
      rwa [had] at h
    rw [ballot, Nat.mod_eq_of_lt (by omega)]
    exact Ballot.lt_iff.mpr (Or.inl (by simp only; omega))
  | adopt id _ b own above ballot leader => exact hnew rfl leader
  | takeOver m _ takes ballot leader => exact hnew rfl leader

theorem last_of_reachable (h : (machine S).ReachableUnder (Small S) s) :
    ∀ i ∈ S.nodes, s.Increasing i → s.Last i := by
  refine h.invariant (P := fun s => ∀ i ∈ S.nodes, s.Increasing i → s.Last i) ?_ ?_
  · intro i _ _ l hl
    have hnil : (machine S).init.indications i = [] := indications_init S i
    rw [hnil] at hl; cases hl
  · intro s e t _ hsmall hs hstep j hj hinc
    obtain ⟨i, me, c, out, rfl, hi, hin, hm, rfl⟩ := step_cases hstep
    by_cases hji : j = i
    · subst hji
      exact last_step hsmall hi (hs j hj hinc.before) hm hinc
    · unfold Increasing at hinc
      unfold Last
      rw [indications_set_of_ne hji] at hinc ⊢
      rw [node_set_of_ne hji]
      exact hs j hj hinc

/-- A step keeps all indications increasing just when it takes over no stale leader. -/
theorem Monotone.step_iff (hr : (machine S).ReachableUnder (Small S) s) (hs : Monotone S s)
    (e : ℕ × MPEvent) (hsmall : Small S s e) :
    Fresh S s e ↔ ∀ t, s.step S e = some t → Monotone S t := by
  constructor
  · intro hfresh t ht j hj
    obtain ⟨i, me, c, out, rfl, hi, hin, hm, rfl⟩ := step_cases ht
    by_cases hji : j = i
    · subst hji
      have hlast := last_of_reachable hr j hj (hs j hj)
      have hinc : ((s.indications j).map Leader.round).Pairwise (· < ·) := hs j hj
      unfold Increasing
      rw [indications_set_self]
      generalize indicationsOf out = ls at hm
      cases hm with
      | quiet => rw [List.append_nil]; exact hinc
      | drop => rw [List.append_nil]; exact hinc
      | adopt id _ b own above =>
        exact (increasing_append_singleton hinc).mpr (hlast.lt above fun _ => own)
      | takeOver m _ takes =>
        refine (increasing_append_singleton hinc).mpr ?_
        cases hl : (s.node j).leader with
        | none => exact hfresh ⟨hj, hin⟩ hl takes
        | some b =>
          have hlt := takes.2.2.2
          rw [hl] at hlt
          refine hlast.lt (fun b' hb' => ?_) fun hnone => ?_
          · rw [hl] at hb'
            cases hb'; exact hlt
          · rw [hl] at hnone; cases hnone
    · unfold Increasing
      rw [indications_set_of_ne hji]
      exact hs j hj
  · intro hmono
    obtain ⟨i, me⟩ := e
    cases me with
    | reply m =>
      rintro ⟨hi, hin⟩ - htakes
      obtain ⟨c, out, hc⟩ : ∃ c out, (s.node i).handleReply m = (c, out) := ⟨_, _, rfl⟩
      have hstep : s.step S (i, .reply m) = some (s.set i c out) := by
        simp only [step, handle, hc]
        rw [if_pos ⟨hi, hin⟩]
        rfl
      have hinc := hmono _ hstep i hi
      have hm := handleReply_move hc
      unfold Increasing at hinc
      rw [indications_set_self] at hinc
      generalize indicationsOf out = ls at hm hinc
      cases hm with
      | quiet _ _ ballot leader stays => exact absurd htakes (stays m rfl)
      | takeOver _ _ takes => exact (increasing_append_singleton (hs i hi)).mp hinc
    | _ => trivial

/-- **Monotone leaders**: in a run in which no ballot number reaches `2 ^ 32 - 1`, the ballots that
each node indicates increase, at any moment, if and only if no node without a leader takes over one
from a reply that is not above all it has indicated. -/
theorem leaders_increase_iff (S : MPSetup) (es : List (ℕ × MPEvent))
    (hsmall : (machine S).AllSteps (Small S) (machine S).init es) :
    (machine S).AllStates (Monotone S) (machine S).init es ↔
      (machine S).AllSteps (Fresh S) (machine S).init es := by
  have hinit : Monotone S (machine S).init := by
    intro i _
    have hnil : (machine S).init.indications i = [] := indications_init S i
    unfold Increasing
    rw [hnil]
    exact List.Pairwise.nil
  exact Machine.ReachableUnder.allStates_iff_allSteps (fun s hr hs e he => Monotone.step_iff hr hs e he)
    .init hinit hsmall

/-- Three nodes without an initial leader. -/
def trio : MPSetup := ⟨[1, 2, 3], fun _ => none⟩

/-- Nodes 1 and 2 take node 3 for the leader. Node 1 gets no reply from it in the next round, gives it
up, and takes it over again from a reply of node 2. -/
def leaderTwice : List (ℕ × MPEvent) :=
  [(3, .request 1 1), (1, .reply ⟨1, ⟨0, 3⟩, ⟨0, 0⟩⟩), (1, .timeout 0), (3, .request 2 1),
    (2, .reply ⟨1, ⟨0, 3⟩, ⟨0, 0⟩⟩), (2, .timeout 0), (2, .request 1 2),
    (1, .reply ⟨2, ⟨0, 2⟩, ⟨0, 3⟩⟩), (1, .timeout 1), (2, .request 1 3),
    (1, .reply ⟨3, ⟨0, 2⟩, ⟨0, 3⟩⟩)]

/-- Node 1 indicates one ballot twice. No message is delivered twice in the run. -/
theorem leader_indicated_twice : leaderTwice.Nodup ∧
    (machine trio).AllSteps (Small trio) (machine trio).init leaderTwice ∧ ∃ s,
    (machine trio).run (machine trio).init leaderTwice = some s ∧
    s.indications 1 = [⟨3, ⟨0, 3⟩⟩, ⟨3, ⟨0, 3⟩⟩] ∧ ¬ Monotone trio s := by
  refine ⟨by decide, by decide, _, rfl, by decide, fun h => ?_⟩
  have hinc := h 1 (by decide)
  revert hinc
  decide

/-- Node 1 gives node 3 up as before; then it gets a reply of node 3 itself and takes the lead. -/
def leaderReplaced : List (ℕ × MPEvent) :=
  leaderTwice.take 9 ++
    [(3, .request 1 3), (1, .reply ⟨3, ⟨0, 3⟩, ⟨0, 0⟩⟩), (1, .timeout 2)]

theorem leaderReplaced_increase :
    (∃ s, (machine trio).run (machine trio).init leaderReplaced = some s ∧
      s.indications 1 = [⟨3, ⟨0, 3⟩⟩, ⟨1, ⟨1, 1⟩⟩]) ∧
    (machine trio).AllStates (Monotone trio) (machine trio).init leaderReplaced :=
  ⟨⟨_, rfl, by decide⟩, (leaders_increase_iff trio leaderReplaced (by decide)).mpr (by decide)⟩

end MPElection

end OmniPaxosBench.LeaderElection
