import Mathlib.Order.Bounds.Basic
import OmniPaxosBench.Lib.Stairs
import OmniPaxosBench.LeaderElection.BallotRounds

/-! # Ballot leader election: convergence under partial connectivity

The nodes are connected in any way, the links need not be symmetric. If in every heartbeat round a node
gets the reply of each node it has a link to, and of no other, the leaders settle: a node that is
connected to a majority takes the greatest ballot of such a node among itself and its links, and ballots
and leaders do not change any more.

It takes five laps, in each of which every node has a timeout. Each makes one more fact true of every
node, and each fact rests on the ones before:

1. `FlagSettled`: the flag says whether the node is connected to a majority;
2. `FlagsSeen`: so do the replies that count;
3. `NotAhead`: the leader's ballot is at most what the leader now has and the replies carry, so that no
   ballot is raised any more;
4. `BallotsSeen`: the replies carry present ballots;
5. `Elected`: the leader is the greatest one. -/

namespace OmniPaxosBench.LeaderElection.Election

open OmniPaxosBench.Lib BallotLeaderComp

variable {S : Setup} {links : ℕ → List ℕ} {s t : Election} {i : ℕ} {e : ℕ × BleEvent}

/-! ### The network -/

/-- A round that ends has brought the reply of each link, and of nobody else. -/
def Timely (links : ℕ → List ℕ) (s : Election) : ℕ × BleEvent → Prop
  | (i, .timeout _) => (s.node i).repliers.Perm (links i)
  | _ => True

instance (links : ℕ → List ℕ) (s : Election) : ∀ e, Decidable (Timely links s e)
  | (_, .timeout _) => inferInstanceAs (Decidable (List.Perm _ _))
  | (_, .request _ _) | (_, .reply _) | (_, .stop _) | (_, .peerStop _) | (_, .partition _) => isTrue trivial

variable (S links) in
def Steady (s : Election) (e : ℕ × BleEvent) : Prop := Unwrapped S s e ∧ Timely links s e

instance (e : ℕ × BleEvent) : Decidable (Steady S links s e) := inferInstanceAs (Decidable (_ ∧ _))

variable (S links) in
/-- With itself, the node is linked to a majority. -/
def QuorumConnected (i : ℕ) : Prop := S.nodes.length / 2 + 1 ≤ (links i).length + 1

instance : Decidable (QuorumConnected S links i) := inferInstanceAs (Decidable (_ ≤ _))

variable (S links) in
/-- The nodes that node `i` can take for the leader. -/
def Eligible (i j : ℕ) : Prop := j = i ∨ (j ∈ links i ∧ QuorumConnected S links j)

/-! ### The threshold -/

theorem majority_start (S : Setup) (i : ℕ) :
    (S.start i).1.majority = ((S.nodes.filter (· ≠ i)).length + 1) / 2 + 1 := by
  have hcreate : (S.start i).1.majority = (S.create i).1.majority := rfl
  rw [hcreate]
  unfold Setup.create
  cases S.given i <;> rfl

theorem majority_eq (hnodup : S.nodes.Nodup) (h : (machine S).Reachable s) :
    ∀ i ∈ S.nodes, (s.node i).majority = S.nodes.length / 2 + 1 := by
  refine h.invariant (P := fun s => ∀ i ∈ S.nodes, (s.node i).majority = S.nodes.length / 2 + 1) ?_ ?_
  · intro i hi
    have hble : (Path.byWith.ble S.nodes i).majority = S.nodes.length / 2 + 1 := majority_ble hnodup hi
    exact (majority_start S i).trans hble
  · intro s e t _ ih hstep i hi
    obtain ⟨k, be⟩ := e
    simp only [machine, step] at hstep
    split_ifs at hstep
    obtain ⟨⟨c, out⟩, hc, rfl⟩ := Option.map_eq_some_iff.mp hstep
    by_cases hik : i = k
    · subst hik
      rw [node_set_self]
      exact (handle_frame hc).1.trans (ih i hi)
    · rw [node_set_of_ne hik]
      exact ih i hi

/-- The quorum check of a timely round says whether the node is connected to a majority. -/
theorem hasQuorum_iff (hnodup : S.nodes.Nodup) (h : (machine S).Reachable s) (hi : i ∈ S.nodes)
    (htimely : (s.node i).repliers.Perm (links i)) :
    (s.node i).HasQuorum ↔ QuorumConnected S links i := by
  have hlen : (s.node i).ballots.length = (links i).length := by
    rw [← htimely.length_eq, repliers, List.length_map]
  unfold HasQuorum QuorumConnected
  rw [majority_eq hnodup h i hi, hlen]

/-! ### The facts -/

variable (S links) in
def FlagSettled (i : ℕ) (s : Election) : Prop :=
  (s.node i).candidate = decide (QuorumConnected S links i)

variable (S links) in
def FlagsSeen (i : ℕ) (s : Election) : Prop :=
  ∀ b candidate, Pending S s i b candidate → candidate = decide (QuorumConnected S links b.pid)

variable (S links) in
def NotAhead (i : ℕ) (s : Election) : Prop :=
  QuorumConnected S links i → ∀ b, (s.node i).leader = some b → Eligible S links i b.pid ∧
    b ≤ (s.node b.pid).currentBallot ∧
    ∀ b' candidate, Pending S s i b' candidate → b'.pid = b.pid → b ≤ b'

variable (S) in
def BallotsSeen (i : ℕ) (s : Election) : Prop :=
  ∀ b candidate, Pending S s i b candidate → b = (s.node b.pid).currentBallot

variable (S links) in
def Elected (i : ℕ) (s : Election) : Prop :=
  QuorumConnected S links i → ∃ b, (s.node i).leader = some b ∧
    IsGreatest {b | ∃ j, Eligible S links i j ∧ b = (s.node j).currentBallot} b

variable (S) in
/-- Where the laps start. -/
def Base (s : Election) : Prop := (machine S).ReachableUnder (Unwrapped S) s

variable (S links) in
abbrev Above1 : Election → Prop := Machine.Above S.nodes (Base S) (FlagSettled S links)

variable (S links) in
abbrev Above2 : Election → Prop := Machine.Above S.nodes (Above1 S links) (FlagsSeen S links)

variable (S links) in
abbrev Above3 : Election → Prop := Machine.Above S.nodes (Above2 S links) (NotAhead S links)

variable (S links) in
abbrev Above4 : Election → Prop := Machine.Above S.nodes (Above3 S links) (BallotsSeen S)

variable (S links) in
abbrev Above5 : Election → Prop := Machine.Above S.nodes (Above4 S links) (Elected S links)

theorem kept_base : (machine S).Kept (Steady S links) (Base S) :=
  fun _ _ _ hs hok hstep => hs.step hok.1 hstep

/-- A node whose round does not end keeps its leader, its ballot and its flag, and indicates nothing. -/
theorem same_of_not_beats (hstep : s.step S e = some t) (hbeats : ¬ Beats i e) :
    Same (s.node i) (t.node i) ∧ t.indications i = s.indications i := by
  obtain ⟨k, be, c, out, rfl, hk, -, hturn, rfl⟩ := turn_of_step hstep
  by_cases hik : i = k
  · subst hik
    rw [node_set_self, indications_set_self]
    cases hturn with
    | other _ _ _ same _ outs _ =>
      refine ⟨same, ?_⟩
      have hnil : indicationsOf out = [] := indicationsOf_notes fun o ho => by
        have hother := outs o ho
        cases o with
        | peerStop | stopReply => trivial
        | request | reply | indication => exact hother.elim
      rw [hnil, List.append_nil]
    | answer => exact ⟨⟨rfl, rfl, rfl, rfl⟩, List.append_nil _⟩
    | collect => exact ⟨⟨rfl, rfl, rfl, rfl⟩, List.append_nil _⟩
    | lapse id => exact absurd ⟨id, rfl⟩ hbeats
    | drop id => exact absurd ⟨id, rfl⟩ hbeats
    | follow id => exact absurd ⟨id, rfl⟩ hbeats
  · rw [node_set_of_ne hik, indications_set_of_ne hik]
    exact ⟨⟨rfl, rfl, rfl, rfl⟩, rfl⟩

/-- The three ways in which a timely round of node `i` ends. -/
theorem beat_cases (hnodup : S.nodes.Nodup) (hs : Base S s) (hok : Steady S links s e)
    (hstep : s.step S e = some t) (hbeats : Beats i e) :
    (s.node i).repliers.Perm (links i) ∧
    ((¬ QuorumConnected S links i ∧ (t.node i).currentBallot = (s.node i).currentBallot ∧
        (t.node i).leader = (s.node i).leader ∧ (t.node i).candidate = false ∧
        t.indications i = s.indications i) ∨
      (QuorumConnected S links i ∧ (s.node i).top < (s.node i).leader.getD default ∧
        (t.node i).leader = none ∧ (t.node i).candidate = true) ∨
      (QuorumConnected S links i ∧ (t.node i).currentBallot = (s.node i).currentBallot ∧
        (t.node i).leader = some (s.node i).top ∧ (t.node i).candidate = true ∧
        ((s.node i).leader = some (s.node i).top → t.indications i = s.indications i))) := by
  obtain ⟨id, rfl⟩ := hbeats
  obtain ⟨k, be, c, out, heq, hk, -, hturn, rfl⟩ := turn_of_step hstep
  cases heq
  have htimely : (s.node i).repliers.Perm (links i) := hok.2
  have hquorum := hasQuorum_iff hnodup (Machine.ReachableUnder.reachable hs) hk htimely
  refine ⟨htimely, ?_⟩
  rw [node_set_self, indications_set_self]
  cases hturn with
  | other _ _ _ _ _ _ quiet => exact absurd rfl (quiet id)
  | lapse _ _ _ _ quorum ballot leader candidate silent =>
    refine Or.inl ⟨fun h => quorum (hquorum.mpr h), ballot, leader, candidate, ?_⟩
    rw [silent, List.append_nil]
  | drop _ _ _ _ quorum below leader candidate =>
    exact Or.inr (Or.inl ⟨hquorum.mp quorum, below, leader, candidate⟩)
  | follow _ _ _ _ quorum ballot leader candidate silent =>
    refine Or.inr (Or.inr ⟨hquorum.mp quorum, ballot, leader, candidate, fun h => ?_⟩)
    rw [silent h, List.append_nil]

/-- Nothing counts that was sent before a round. -/
theorem not_pending_of_beats (hs : Base S s) (hok : Steady S links s e) (hstep : s.step S e = some t)
    (hbeats : Beats i e) {b : Ballot} {candidate : Bool} : ¬ Pending S t i b candidate :=
  fun hp => (pending_step hs hok.1 hstep hp).1 hbeats

/-! ### The stairs -/

theorem flagSettled_stair (hnodup : S.nodes.Nodup) :
    (machine S).Stair (Steady S links) S.nodes Beats (Base S) (FlagSettled S links) := by
  have hclimb : ∀ s e t, Base S s → Steady S links s e → (machine S).step s e = some t →
      ∀ i ∈ S.nodes, Beats i e → FlagSettled S links i t := by
    intro s e t hs hok hstep i _ hbeats
    unfold FlagSettled
    rcases (beat_cases hnodup hs hok hstep hbeats).2 with h | h | h
    · rw [h.2.2.2.1, decide_eq_false h.1]
    · rw [h.2.2.2, decide_eq_true h.1]
    · rw [h.2.2.2.1, decide_eq_true h.1]
  refine ⟨hclimb, fun s e t hs hok hstep i hi hp => ?_⟩
  by_cases hbeats : Beats i e
  · exact hclimb s e t hs hok hstep i hi hbeats
  · exact (same_of_not_beats hstep hbeats).1.candidate.trans hp

theorem flagsSeen_stair :
    (machine S).Stair (Steady S links) S.nodes Beats (Above1 S links) (FlagsSeen S links) := by
  refine ⟨fun s e t hs hok hstep i hi hbeats b candidate hp => ?_,
    fun s e t hs hok hstep i hi hseen b candidate hp => ?_⟩
  · exact absurd hp (not_pending_of_beats hs.1 hok hstep hbeats)
  · rcases (pending_step hs.1 hok.1 hstep hp).2 with hp | ⟨k, hk, rfl, rfl, -⟩
    · exact hseen b candidate hp
    · rw [(nodeInv_of_unwrapped hs.1 k hk).pid]
      exact hs.2 k hk

/-- A candidate among the replies is one of the eligible nodes. -/
theorem eligible_of_mem (hs : Above2 S links s) (hi : i ∈ S.nodes)
    (htimely : (s.node i).repliers.Perm (links i)) {b : Ballot} (hb : (b, true) ∈ (s.node i).ballots) :
    Eligible S links i b.pid := by
  refine Or.inr ⟨htimely.mem_iff.mp (List.mem_map.mpr ⟨_, hb, rfl⟩), ?_⟩
  have hflag := hs.2 i hi b true (Or.inl hb)
  exact of_decide_eq_true hflag.symm

/-- An eligible node other than the node itself is among the candidates of a timely round. -/
theorem mem_of_eligible (hs : Above2 S links s) (hi : i ∈ S.nodes)
    (htimely : (s.node i).repliers.Perm (links i)) {j : ℕ} (hj : j ∈ links i)
    (hq : QuorumConnected S links j) : ∃ b, (b, true) ∈ (s.node i).ballots ∧ b.pid = j := by
  obtain ⟨⟨b, candidate⟩, hmem, rfl⟩ := List.mem_map.mp (htimely.mem_iff.mpr hj)
  have hflag := hs.2 i hi b candidate (Or.inl hmem)
  rw [decide_eq_true hq] at hflag
  subst hflag
  exact ⟨b, hmem, rfl⟩

theorem mem_topCandidates {c : BallotLeaderComp} {b : Ballot} :
    b ∈ candidates (c.ballots ++ [(c.currentBallot, true)]) ↔
      (b, true) ∈ c.ballots ∨ b = c.currentBallot := by
  rw [mem_candidates, List.mem_append, List.mem_singleton, Prod.mk.injEq]
  exact or_congr_right (and_iff_left rfl)

theorem top_spec (c : BallotLeaderComp) : ((c.top, true) ∈ c.ballots ∨ c.top = c.currentBallot) ∧
    ∀ b, (b, true) ∈ c.ballots ∨ b = c.currentBallot → b ≤ c.top := by
  have hown : c.currentBallot ∈ candidates (c.ballots ++ [(c.currentBallot, true)]) :=
    mem_topCandidates.mpr (Or.inr rfl)
  obtain ⟨hmem, hmax⟩ := topBallot_spec hown
  exact ⟨mem_topCandidates.mp hmem, fun b hb => hmax b (mem_topCandidates.mpr hb)⟩

theorem notAhead_stair (hnodup : S.nodes.Nodup) :
    (machine S).Stair (Steady S links) S.nodes Beats (Above2 S links) (NotAhead S links) := by
  have hclimb : ∀ s e t, Above2 S links s → Steady S links s e → (machine S).step s e = some t →
      ∀ i ∈ S.nodes, Beats i e → NotAhead S links i t := by
    intro s e t hs hok hstep i hi hbeats hq b hb
    have hinv := nodeInv_of_unwrapped hs.1.1
    obtain ⟨htimely, h | h | h⟩ := beat_cases hnodup hs.1.1 hok hstep hbeats
    · exact absurd hq h.1
    · rw [h.2.2.1] at hb
      cases hb
    · rw [h.2.2.1] at hb
      obtain rfl := Option.some.inj hb
      have hfresh : ∀ b' candidate, Pending S t i b' candidate → b'.pid = (s.node i).top.pid →
          (s.node i).top ≤ b' :=
        fun _ _ hp => absurd hp (not_pending_of_beats hs.1.1 hok hstep hbeats)
      have hmono := currentBallot_le_step hs.1.1 hok.1 hstep
      rcases (top_spec (s.node i)).1 with hmem | hown
      · -- the ballot was held by the node it names
        obtain ⟨hpid, hheld⟩ := (hinv i hi).ballots _ hmem
        exact ⟨eligible_of_mem hs hi htimely hmem,
          (((hinv _ hpid).held _ hheld).2).trans (hmono _), hfresh⟩
      · have hpid : (s.node i).top.pid = i := by rw [hown]; exact (hinv i hi).pid
        refine ⟨Or.inl hpid, ?_, hfresh⟩
        rw [hpid, hown]
        exact hmono i
  refine ⟨hclimb, fun s e t hs hok hstep i hi hp => ?_⟩
  by_cases hbeats : Beats i e
  · exact hclimb s e t hs hok hstep i hi hbeats
  · intro hq b hb
    rw [(same_of_not_beats hstep hbeats).1.leader] at hb
    obtain ⟨helig, hle, hpending⟩ := hp hq b hb
    refine ⟨helig, hle.trans (currentBallot_le_step hs.1.1 hok.1 hstep _), fun b' candidate hp' hpid => ?_⟩
    rcases (pending_step hs.1.1 hok.1 hstep hp').2 with hp' | ⟨k, hk, rfl, rfl, -⟩
    · exact hpending b' candidate hp' hpid
    · rw [(nodeInv_of_unwrapped hs.1.1 k hk).pid] at hpid
      rw [hpid]
      exact hle

/-- The leader is not above the candidates. -/
theorem not_top_lt (hs : Above3 S links s) (hi : i ∈ S.nodes) (hq : QuorumConnected S links i)
    (htimely : (s.node i).repliers.Perm (links i)) :
    ¬ (s.node i).top < (s.node i).leader.getD default := by
  cases hl : (s.node i).leader with
  | none => exact Ballot.not_lt_default
  | some b =>
    obtain ⟨helig, hle, hpending⟩ := hs.2 i hi hq b hl
    have hmax := (top_spec (s.node i)).2
    refine not_lt.mpr ?_
    show b ≤ (s.node i).top
    rcases helig with hpid | ⟨hlink, hquorum⟩
    · rw [hpid] at hle
      exact hle.trans (hmax _ (Or.inr rfl))
    · obtain ⟨b', hmem, hpid⟩ := mem_of_eligible hs.1 hi htimely hlink hquorum
      exact (hpending b' true (Or.inl hmem) hpid).trans (hmax b' (Or.inl hmem))

/-- No ballot is raised any more. -/
theorem currentBallot_step (hnodup : S.nodes.Nodup) (hs : Above3 S links s) (hok : Steady S links s e)
    (hstep : s.step S e = some t) (j : ℕ) : (t.node j).currentBallot = (s.node j).currentBallot := by
  by_cases hbeats : Beats j e
  · have hj : j ∈ S.nodes := by
      obtain ⟨id, rfl⟩ := hbeats
      obtain ⟨k, be, c, out, heq, hk, -⟩ := turn_of_step hstep
      cases heq
      exact hk
    obtain ⟨htimely, h | h | h⟩ := beat_cases hnodup hs.1.1.1 hok hstep hbeats
    · exact h.2.1
    · exact absurd h.2.1 (not_top_lt hs hj h.1 htimely)
    · exact h.2.1
  · exact (same_of_not_beats hstep hbeats).1.ballot

theorem ballotsSeen_stair (hnodup : S.nodes.Nodup) :
    (machine S).Stair (Steady S links) S.nodes Beats (Above3 S links) (BallotsSeen S) := by
  refine ⟨fun s e t hs hok hstep i hi hbeats b candidate hp => ?_,
    fun s e t hs hok hstep i hi hseen b candidate hp => ?_⟩
  · exact absurd hp (not_pending_of_beats hs.1.1.1 hok hstep hbeats)
  · rw [currentBallot_step hnodup hs hok hstep]
    rcases (pending_step hs.1.1.1 hok.1 hstep hp).2 with hp | ⟨k, hk, rfl, rfl, -⟩
    · exact hseen b candidate hp
    · rw [(nodeInv_of_unwrapped hs.1.1.1 k hk).pid]

/-- The largest candidate of a timely round is the greatest eligible ballot. -/
theorem isGreatest_top (hs : Above4 S links s) (hi : i ∈ S.nodes)
    (htimely : (s.node i).repliers.Perm (links i)) :
    IsGreatest {b | ∃ j, Eligible S links i j ∧ b = (s.node j).currentBallot} (s.node i).top := by
  obtain ⟨hmem, hmax⟩ := top_spec (s.node i)
  constructor
  · rcases hmem with hmem | hown
    · exact ⟨_, eligible_of_mem hs.1.1 hi htimely hmem, hs.2 i hi _ _ (Or.inl hmem)⟩
    · exact ⟨i, Or.inl rfl, hown⟩
  · rintro b ⟨j, rfl | ⟨hlink, hq⟩, rfl⟩
    · exact hmax _ (Or.inr rfl)
    · obtain ⟨b', hmem', hpid⟩ := mem_of_eligible hs.1.1 hi htimely hlink hq
      have hnow := hs.2 i hi b' true (Or.inl hmem')
      rw [hpid] at hnow
      exact hmax _ (Or.inl (hnow ▸ hmem'))

theorem elected_stair (hnodup : S.nodes.Nodup) :
    (machine S).Stair (Steady S links) S.nodes Beats (Above4 S links) (Elected S links) := by
  have hclimb : ∀ s e t, Above4 S links s → Steady S links s e → (machine S).step s e = some t →
      ∀ i ∈ S.nodes, Beats i e → Elected S links i t := by
    intro s e t hs hok hstep i hi hbeats hq
    obtain ⟨htimely, h | h | h⟩ := beat_cases hnodup hs.1.1.1.1 hok hstep hbeats
    · exact absurd hq h.1
    · exact absurd h.2.1 (not_top_lt hs.1 hi hq htimely)
    · refine ⟨_, h.2.2.1, ?_⟩
      simp only [currentBallot_step hnodup hs.1 hok hstep]
      exact isGreatest_top hs hi htimely
  refine ⟨hclimb, fun s e t hs hok hstep i hi hp => ?_⟩
  by_cases hbeats : Beats i e
  · exact hclimb s e t hs hok hstep i hi hbeats
  · intro hq
    simp only [(same_of_not_beats hstep hbeats).1.leader, currentBallot_step hnodup hs.1 hok hstep]
    exact hp hq

theorem stairs (hnodup : S.nodes.Nodup) :
    (machine S).Stairs (Steady S links) S.nodes Beats 5 (Base S) (Above5 S links) :=
  .cons (flagSettled_stair hnodup) <| .cons flagsSeen_stair <| .cons (notAhead_stair hnodup) <|
    .cons (ballotsSeen_stair hnodup) <| .cons (elected_stair hnodup) <| .nil _

/-! ### At the top -/

/-- What the others see of a node: its ballot, its leader and its indications. -/
def outcome (s : Election) (i : ℕ) : Ballot × Option Ballot × List Leader :=
  ((s.node i).currentBallot, (s.node i).leader, s.indications i)

/-- At the top nothing changes any more. -/
theorem outcome_step (hnodup : S.nodes.Nodup) (hs : Above5 S links s) (hok : Steady S links s e)
    (hstep : s.step S e = some t) (hi : i ∈ S.nodes) : t.outcome i = s.outcome i := by
  unfold outcome
  rw [currentBallot_step hnodup hs.1.1 hok hstep]
  by_cases hbeats : Beats i e
  · obtain ⟨htimely, h | h | h⟩ := beat_cases hnodup hs.1.1.1.1.1 hok hstep hbeats
    · rw [h.2.2.1, h.2.2.2.2]
    · exact absurd h.2.1 (not_top_lt hs.1.1 hi h.1 htimely)
    · obtain ⟨b, hb, hgreatest⟩ := hs.2 i hi h.1
      obtain rfl := hgreatest.unique (isGreatest_top hs.1 hi htimely)
      rw [h.2.2.1, hb, h.2.2.2.2 hb]
  · obtain ⟨hsame, hind⟩ := same_of_not_beats hstep hbeats
    rw [hsame.leader, hind]

/-- **The leaders settle.** From any state reached without a counter wrapping, under any fixed links:
after five laps every node that is connected to a majority has for its leader the greatest ballot of the
nodes connected to a majority among itself and its links, and from then on no node changes its ballot or
its leader, or indicates one. -/
theorem leaders_settle (hnodup : S.nodes.Nodup) (hs : (machine S).ReachableUnder (Unwrapped S) s)
    {laps : List (List (ℕ × BleEvent))} (hlen : laps.length = 5)
    (hlap : ∀ lap ∈ laps, Machine.Lap S.nodes Beats lap)
    (hok : (machine S).AllSteps (Steady S links) s laps.flatten)
    (hrun : (machine S).run s laps.flatten = some t) :
    (∀ i ∈ S.nodes, QuorumConnected S links i → ∃ b, (t.node i).leader = some b ∧
      IsGreatest {b | ∃ j, Eligible S links i j ∧ b = (t.node j).currentBallot} b) ∧
    ∀ es u, (machine S).AllSteps (Steady S links) t es → (machine S).run t es = some u →
      ∀ i ∈ S.nodes, u.outcome i = t.outcome i := by
  have htop : Above5 S links t := (stairs hnodup).reach kept_base hs hlen hlap hok hrun
  refine ⟨htop.2, fun es u hes hu i hi => ?_⟩
  exact ((stairs hnodup).kept kept_base).eq_of_run (f := fun s => s.outcome i)
    (fun _ _ _ ha he hab => outcome_step hnodup ha he hab hi) htop hes hu

/-- Five nodes, the others linked to node 3 only. -/
def star : Setup := { pair with nodes := [1, 2, 3, 4, 5] }

def starLinks (i : ℕ) : List ℕ := if i = 3 then [1, 2, 4, 5] else [3]

/-- A lap in which every node `j` answers with ballot `⟨n j, j⟩` and flag `candidate j`. -/
def starLap (round : ℕ) (n : ℕ → ℕ) (candidate : ℕ → Bool) : List (ℕ × BleEvent) :=
  (star.nodes.flatMap fun i => (starLinks i).flatMap fun j =>
    [(j, .request i round), (i, .reply ⟨round, ⟨n j, j⟩, candidate j⟩)]) ++
  star.nodes.map fun i => (i, .timeout (round - 1))

/-- Node 3 first takes node 5 for the leader, learns that it has no majority, raises its ballot and
takes itself. -/
def starLaps : List (List (ℕ × BleEvent)) :=
  [starLap 1 (fun _ => 0) (fun _ => true), starLap 2 (fun _ => 0) (· = 3)] ++
    [3, 4, 5].map fun round => starLap round (fun j => if j = 3 then 1 else 0) (· = 3)

theorem lap_starLaps : ∀ lap ∈ starLaps, Machine.Lap star.nodes Beats lap := by
  have hends : ∀ round n candidate, Machine.Lap star.nodes Beats (starLap round n candidate) :=
    fun round n candidate i hi =>
      ⟨_, List.mem_append_right _ (List.mem_map.mpr ⟨i, hi, rfl⟩), round - 1, rfl⟩
  intro lap hmem
  simp only [starLaps, List.map_cons, List.map_nil, List.cons_append, List.nil_append, List.mem_cons,
    List.not_mem_nil, or_false] at hmem
  rcases hmem with rfl | rfl | rfl | rfl | rfl <;> exact hends _ _ _

theorem star_settles : ∃ t, (machine star).run (machine star).init starLaps.flatten = some t ∧
    t.outcome 3 = (⟨1, 3⟩, some ⟨1, 3⟩, [⟨5, ⟨0, 5⟩⟩, ⟨3, ⟨1, 3⟩⟩]) ∧
    ∀ es u, (machine star).AllSteps (Steady star starLinks) t es → (machine star).run t es = some u →
      u.outcome 3 = t.outcome 3 := by
  obtain ⟨t, hrun, hout⟩ : ∃ t,
      (machine star).run (machine star).init starLaps.flatten = some t ∧
        t.outcome 3 = (⟨1, 3⟩, some ⟨1, 3⟩, [⟨5, ⟨0, 5⟩⟩, ⟨3, ⟨1, 3⟩⟩]) := ⟨_, rfl, by decide +kernel⟩
  have hok : (machine star).AllSteps (Steady star starLinks) (machine star).init starLaps.flatten := by
    decide +kernel
  obtain ⟨-, hrest⟩ := leaders_settle (by decide) Machine.ReachableUnder.init rfl lap_starLaps hok hrun
  exact ⟨t, hrun, hout, fun es u hes hu => hrest es u hes hu 3 (by decide)⟩

end OmniPaxosBench.LeaderElection.Election
