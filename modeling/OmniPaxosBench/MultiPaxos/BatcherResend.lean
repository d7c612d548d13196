import OmniPaxosBench.Lib.Machine
import OmniPaxosBench.MultiPaxos.Batcher
import OmniPaxosBench.MultiPaxos.Synod

/-! # Multi-Paxos: batches that a leader sent back

A batch that a node refuses because it is not the leader goes back to the batcher, which keeps it and
asks all leaders for the current round. The batches kept are sent again when a reply has a larger round
with another leader. A reply with the round the batcher already knows is taken for a stale one, and a
larger round of the same leader is only recorded. So batches that come back after the batcher has
learnt of the new round stay where they are (`resends_iff`). -/

namespace OmniPaxosBench.MultiPaxos

open OmniPaxosBench.Lib

namespace Batcher

/-- A started batcher of a cluster of `n` nodes and everything that can happen to it. -/
def machine (index n : ℕ) : Machine Batcher BatcherEvent where
  init := (new index (pids n)).onStart
  step b e := (b.handle e).map Prod.fst

/-- **A reply resends what is pending**: the batcher is in the round of the reply, nothing is pending any
more, and the batches that were pending have been sent to the leader of that round, each once. -/
def Resends (b : Batcher) (round : ℕ) : Prop :=
  ∃ b', b.handleLeaderInfo round = some (b', b.pendingResendBatches.map fun batch =>
      .toLeader (b.roundSystem.leader round) (.clientRequestBatch batch)) ∧
    b'.round = round ∧ b'.pendingResendBatches = []

/-- What no event changes. -/
structure Configured (n : ℕ) (b : Batcher) : Prop where
  leaders : b.leaders = pids n
  roundSystem : b.roundSystem = ⟨n⟩

variable {index n : ℕ} {b b' : Batcher} {e : BatcherEvent} {out : List BatcherOut}

theorem Configured.handle (h : Configured n b) (hstep : b.handle e = some (b', out)) :
    Configured n b' := by
  cases e with
  | proposal p =>
    cases hstep
    exact ⟨h.leaders, h.roundSystem⟩
  | inbound m =>
    cases m with
    | notLeaderBatcher batch =>
      cases hstep
      exact ⟨h.leaders, h.roundSystem⟩
    | leaderInfoReplyBatcher r =>
      simp only [handle, receiveNetwork, handleLeaderInfo] at hstep
      split_ifs at hstep <;> cases hstep <;> exact ⟨h.leaders, h.roundSystem⟩
  | timeout id =>
    obtain ⟨-, -, hs⟩ := Option.bind_eq_some_iff.mp hstep
    simp only [sendBatch] at hs
    split_ifs at hs <;> cases hs <;> exact ⟨h.leaders, h.roundSystem⟩
  | partition pe =>
    obtain ⟨s, -, heq⟩ := Option.map_eq_some_iff.mp hstep
    cases heq
    exact ⟨h.leaders, h.roundSystem⟩

theorem configured_of_reachable (h : (machine index n).Reachable b) : Configured n b := by
  refine h.invariant (P := Configured n) ⟨rfl, ?_⟩ fun b e b' _ hb hstep => ?_
  · simp [machine, new, onStart, startBatchTimer, pids]
  · obtain ⟨⟨b'', out⟩, hx, heq⟩ := Option.map_eq_some_iff.mp hstep
    cases heq
    exact hb.handle hx

/-- Every round has a leader. -/
theorem leader_mem_pids (hn : 1 ≤ n) (round : ℕ) : (ClassicRoundRobin.mk n).leader round ∈ pids n := by
  have hlt := Nat.mod_lt round hn
  unfold ClassicRoundRobin.leader
  dsimp only
  split_ifs <;> simp only [pids, List.mem_range'_1] <;> omega

/-- **The exact condition for resending**: in every reachable state without disconnected peers and for
every reply that is not older than the batcher's round, what is pending is resent just when nothing is
pending, or the reply is newer and its round has another leader. -/
theorem resends_iff (hn : 1 ≤ n) (h : (machine index n).Reachable b) (hconn : b.disconnectedPeers = [])
    {round : ℕ} (hround : b.round ≤ round) :
    b.Resends round ↔ b.pendingResendBatches = [] ∨
      (round ≠ b.round ∧ b.roundSystem.leader round ≠ b.roundSystem.leader b.round) := by
  have hcfg := configured_of_reachable h
  have hleader : b.roundSystem.leader round ∈ b.leaders := by
    rw [hcfg.leaders, hcfg.roundSystem]
    exact leader_mem_pids hn round
  unfold Resends handleLeaderInfo
  by_cases hsame : round = b.round
  · -- the reply is taken for a stale one
    rw [if_pos hsame.le]
    constructor
    · rintro ⟨b', heq, -, hnil⟩
      rw [Option.some.injEq, Prod.mk.injEq] at heq
      rw [← heq.1] at hnil
      exact .inl hnil
    · rintro (hnil | ⟨hne, -⟩)
      · exact ⟨b, by rw [hnil]; rfl, hsame.symm, hnil⟩
      · exact absurd hsame hne
  · rw [if_neg (by omega)]
    dsimp only
    by_cases hother : b.roundSystem.leader b.round = b.roundSystem.leader round
    · rw [if_neg (not_not_intro hother)]
      constructor
      · rintro ⟨b', heq, -, hnil⟩
        rw [Option.some.injEq, Prod.mk.injEq] at heq
        rw [← heq.1] at hnil
        exact .inl hnil
      · rintro (hnil | ⟨-, hne⟩)
        · exact ⟨{ b with round := round }, by simp [hnil], rfl, hnil⟩
        · exact absurd hother.symm hne
    · rw [if_pos hother, if_neg (by rw [hconn]; exact List.not_mem_nil), if_pos hleader]
      exact iff_of_true ⟨_, rfl, rfl, rfl⟩ (.inr ⟨hsame, Ne.symm hother⟩)

/-- Two batches go to node `3`, the first leader. It refuses both; the reply with round `4` comes before
the second one is back. -/
def lateRejection : List BatcherEvent :=
  [.proposal ⟨[1]⟩, .timeout 0, .proposal ⟨[2]⟩, .timeout 0, .inbound (.notLeaderBatcher [⟨[1]⟩]),
    .inbound (.leaderInfoReplyBatcher 4), .inbound (.notLeaderBatcher [⟨[2]⟩])]

/-- The reply to the second request has round `4` as well, and the second batch stays. -/
theorem late_rejection_stays : ∃ b, (machine 2 3).run (machine 2 3).init lateRejection = some b ∧
    b.disconnectedPeers = [] ∧ b.round ≤ 4 ∧ b.pendingResendBatches = [[⟨[2]⟩]] ∧
    b.handleLeaderInfo 4 = some (b, []) ∧ ¬ b.Resends 4 := by
  have hrun : ((machine 2 3).run (machine 2 3).init lateRejection).map (fun b =>
      (b.disconnectedPeers, b.round, b.pendingResendBatches)) = some ([], 4, [[⟨[2]⟩]]) := rfl
  obtain ⟨b, hb, heq⟩ := Option.map_eq_some_iff.mp hrun
  simp only [Prod.mk.injEq] at heq
  obtain ⟨hconn, hround, hpend⟩ := heq
  have hinfo : b.handleLeaderInfo 4 = some (b, []) := if_pos hround.ge
  refine ⟨b, hb, hconn, hround.le, hpend, hinfo, ?_⟩
  rintro ⟨b', hres, -⟩
  rw [hinfo, hpend] at hres
  simp at hres

/-- Before that, the reply with round `4` resends the first batch. -/
theorem resends_iff_first : ∃ b, (machine 2 3).run (machine 2 3).init (lateRejection.take 5) = some b ∧
    b.pendingResendBatches = [[⟨[1]⟩]] ∧ b.Resends 4 := by
  have hrun : ((machine 2 3).run (machine 2 3).init (lateRejection.take 5)).map (fun b =>
      (b.disconnectedPeers, b.round, b.roundSystem.n, b.pendingResendBatches)) =
      some ([], 0, 3, [[⟨[1]⟩]]) := rfl
  obtain ⟨b, hb, heq⟩ := Option.map_eq_some_iff.mp hrun
  simp only [Prod.mk.injEq] at heq
  obtain ⟨hconn, hround, hn, hpend⟩ := heq
  refine ⟨b, hb, hpend, ?_⟩
  refine (resends_iff (by decide) (Machine.reachable_of_run hb) hconn (by omega)).mpr (.inr ⟨by omega, ?_⟩)
  rw [hround]
  unfold ClassicRoundRobin.leader
  rw [hn]
  decide

end Batcher

end OmniPaxosBench.MultiPaxos
