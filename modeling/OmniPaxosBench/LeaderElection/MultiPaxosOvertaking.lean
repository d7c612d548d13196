import Mathlib.Data.Finset.Dedup
import OmniPaxosBench.LeaderElection.MultiPaxosRounds
import OmniPaxosBench.Lib.Stairs
import OmniPaxosBench.Lib.Voting

/-! # Multi-Paxos style leader election under partial connectivity

The links go in both directions, and every node is linked to a majority; in every heartbeat round a node
gets the replies of its links and of nobody else. Then a node that is not linked to all the others does
not stay the leader: after four laps another one has a greater ballot (`unlinked_overtaken`).

As long as no ballot is greater than `b`, each lap makes one more fact true of every node:

1. `OwnerSeen`: from its owner the node only hears of `b`;
2. `Followed`: it follows `b`, if it is linked to the owner;
3. `Passed`: from the nodes linked to the owner it hears that `b` is the leader;
4. it is linked to the owner, for otherwise it has `b` for its leader, misses the ballot in the replies,
   and raises its own above it. -/

namespace OmniPaxosBench.LeaderElection.MPElection

open OmniPaxosBench.Lib MultiPaxosLeaderComp

variable {S : MPSetup} {links : ℕ → List ℕ} {s t : MPElection} {i j : ℕ} {e : ℕ × MPEvent} {b : Ballot}

/-! ### The network -/

/-- A round that ends has brought the reply of each link, and of nobody else. -/
def Timely (links : ℕ → List ℕ) (s : MPElection) : ℕ × MPEvent → Prop
  | (i, .timeout _) => (s.node i).repliers.Perm (links i)
  | _ => True

instance (links : ℕ → List ℕ) (s : MPElection) : ∀ e, Decidable (Timely links s e)
  | (_, .timeout _) => inferInstanceAs (Decidable (List.Perm _ _))
  | (_, .request _ _) | (_, .reply _) | (_, .stop _) | (_, .peerStop _) | (_, .partition _) => isTrue trivial

variable (S links) in
def Steady (s : MPElection) (e : ℕ × MPEvent) : Prop := Unwrapped S s e ∧ Timely links s e

instance (e : ℕ × MPEvent) : Decidable (Steady S links s e) := inferInstanceAs (Decidable (_ ∧ _))

/-- Links in both directions, of every node to a majority. -/
structure Network (nodes : List ℕ) (links : ℕ → List ℕ) : Prop where
  nodup : nodes.Nodup
  linksNodup : ∀ i ∈ nodes, (links i).Nodup
  mem : ∀ i ∈ nodes, ∀ j ∈ links i, j ∈ nodes ∧ j ≠ i
  symm : ∀ i ∈ nodes, ∀ j ∈ links i, i ∈ links j
  quorum : ∀ i ∈ nodes, nodes.length / 2 + 1 ≤ (links i).length + 1

/-- A node with its links is a majority. -/
theorem Network.isMajority {nodes : List ℕ} (net : Network nodes links) (hi : i ∈ nodes) :
    IsMajority nodes.toFinset (insert i (links i).toFinset) := by
  have hself : i ∉ (links i).toFinset := fun h => (net.mem i hi i (List.mem_toFinset.mp h)).2 rfl
  refine ⟨fun j hj => ?_, ?_⟩
  · rcases Finset.mem_insert.mp hj with rfl | hj
    · exact List.mem_toFinset.mpr hi
    · exact List.mem_toFinset.mpr (net.mem i hi j (List.mem_toFinset.mp hj)).1
  · rw [Finset.card_insert_of_notMem hself, List.toFinset_card_of_nodup net.nodup,
      List.toFinset_card_of_nodup (net.linksNodup i hi)]
    exact net.quorum i hi

/-- Two nodes that are not linked are linked to a third one. -/
theorem Network.common {nodes : List ℕ} (net : Network nodes links) (hi : i ∈ nodes) (hj : j ∈ nodes)
    (hne : i ≠ j) (hlink : j ∉ links i) : ∃ k ∈ links i, j ∈ links k := by
  obtain ⟨k, hk, hk'⟩ := (net.isMajority hi).inter (net.isMajority hj)
  rw [Finset.mem_insert, List.mem_toFinset] at hk hk'
  rcases hk with rfl | hk
  · rcases hk' with hkj | hk'
    · exact absurd hkj hne
    · exact absurd (net.symm j hj k hk') hlink
  · rcases hk' with rfl | hk'
    · exact absurd hk hlink
    · exact ⟨k, hk, net.symm j hj k hk'⟩

theorem Network.perm {nodes nodes' : List ℕ} (net : Network nodes links) (h : nodes'.Perm nodes) :
    Network nodes' links := by
  refine ⟨h.nodup_iff.mpr net.nodup, fun i hi => net.linksNodup i (h.mem_iff.mp hi), fun i hi j hj => ?_,
    fun i hi => net.symm i (h.mem_iff.mp hi), fun i hi => ?_⟩
  · obtain ⟨hmem, hne⟩ := net.mem i (h.mem_iff.mp hi) j hj
    exact ⟨h.mem_iff.mpr hmem, hne⟩
  · rw [h.length_eq]
    exact net.quorum i (h.mem_iff.mp hi)

/-! ### Steps -/

/-- Between two ends of its rounds a node stores replies that count, and takes over leaders from them. -/
theorem quiet_step (hstep : s.step S e = some t) (hbeats : ¬ Beats i e) :
    ((t.node i).ballots = (s.node i).ballots ∧ (t.node i).leader = (s.node i).leader) ∨
      ∃ m, (rounds S).Counts s i m ∧ (t.node i).ballots = (s.node i).ballots ++ [m.ballot] ∧
        (t.node i).leader = (s.node i).hear m.currentLeader := by
  obtain ⟨k, me, c, out, rfl, -, hin, hturn, rfl⟩ := turn_of_step hstep
  by_cases hik : i = k
  · subst hik
    rw [node_set_self]
    cases hturn with
    | other _ _ _ _ leader ballots => exact Or.inl ⟨ballots, leader⟩
    | answer => exact Or.inl ⟨rfl, rfl⟩
    | collect m _ _ round _ leader ballots => exact Or.inr ⟨m, ⟨hin, round⟩, ballots, leader⟩
    | lapse id => exact absurd ⟨id, rfl⟩ hbeats
    | drop id => exact absurd ⟨id, rfl⟩ hbeats
    | follow id => exact absurd ⟨id, rfl⟩ hbeats
  · rw [node_set_of_ne hik]
    exact Or.inl ⟨rfl, rfl⟩

variable (S links) in
/-- With itself, the node is linked to a majority. -/
def QuorumConnected (i : ℕ) : Prop := S.nodes.length / 2 + 1 ≤ (links i).length + 1

/-- The quorum check of a timely round says whether the node is linked to a majority. -/
theorem hasQuorum_iff (hnodup : S.nodes.Nodup) (hs : (machine S).ReachableUnder (Unwrapped S) s)
    (hi : i ∈ S.nodes) (htimely : (s.node i).repliers.Perm (links i)) :
    (s.node i).HasQuorum ↔ QuorumConnected S links i := by
  have hlength : (s.node i).ballots.length = (links i).length := by
    rw [← htimely.length_eq, repliers, List.length_map]
  unfold HasQuorum QuorumConnected
  rw [majority_eq hnodup (Machine.ReachableUnder.reachable hs) i hi, hlength]

/-- The three ways in which a timely round ends. -/
theorem beat_cases (hnodup : S.nodes.Nodup) (hs : (machine S).ReachableUnder (Unwrapped S) s)
    (hok : Steady S links s e) (hstep : s.step S e = some t) (hi : i ∈ S.nodes) (hbeats : Beats i e) :
    (s.node i).repliers.Perm (links i) ∧ (t.node i).ballots = [] ∧
      ((¬ QuorumConnected S links i ∧ (t.node i).leader = (s.node i).leader ∧
          (t.node i).currentBallot = (s.node i).currentBallot) ∨
        (QuorumConnected S links i ∧
          ((∃ a, (s.node i).leader = some a ∧ (s.node i).top < a ∧
              (t.node i).currentBallot = ⟨a.n + 1, (s.node i).currentBallot.pid⟩) ∨
            ((∀ a, (s.node i).leader = some a → a ≤ (s.node i).top) ∧
              (t.node i).leader = some (s.node i).top ∧
              (t.node i).currentBallot = (s.node i).currentBallot)))) := by
  obtain ⟨id, rfl⟩ := hbeats
  obtain ⟨k, me, c, out, heq, hk, -, hturn, rfl⟩ := turn_of_step hstep
  cases heq
  have htimely : (s.node i).repliers.Perm (links i) := hok.2
  have hquorum := hasQuorum_iff hnodup hs hi htimely
  refine ⟨htimely, ?_⟩
  rw [node_set_self]
  cases hturn with
  | other _ _ _ _ _ _ _ quiet => exact absurd rfl (quiet id)
  | lapse _ _ _ next quorum ballot leader =>
    exact ⟨next.ballots, Or.inl ⟨fun h => quorum (hquorum.mpr h), leader, ballot⟩⟩
  | drop _ _ _ next quorum a had below ballot =>
    refine ⟨next.ballots, Or.inr ⟨hquorum.mp quorum, Or.inl ⟨a, had, below, ?_⟩⟩⟩
    exact ballot.trans (raise_eq hok.1.1 hi had _)
  | follow _ _ _ next quorum above ballot leader =>
    exact ⟨next.ballots, Or.inr ⟨hquorum.mp quorum, Or.inr ⟨above, leader, ballot⟩⟩⟩

/-- Those of a node that is linked to a majority. -/
theorem beat_step (net : Network S.nodes links) (hs : (machine S).ReachableUnder (Unwrapped S) s)
    (hok : Steady S links s e) (hstep : s.step S e = some t) (hi : i ∈ S.nodes) (hbeats : Beats i e) :
    (s.node i).repliers.Perm (links i) ∧ (t.node i).ballots = [] ∧
      ((∃ a, (s.node i).leader = some a ∧ (s.node i).top < a ∧
          (t.node i).currentBallot = ⟨a.n + 1, (s.node i).currentBallot.pid⟩) ∨
        ((∀ a, (s.node i).leader = some a → a ≤ (s.node i).top) ∧
          (t.node i).leader = some (s.node i).top ∧
          (t.node i).currentBallot = (s.node i).currentBallot)) := by
  obtain ⟨htimely, hnil, hlapse | hend⟩ := beat_cases net.nodup hs hok hstep hi hbeats
  · exact absurd (net.quorum i hi) hlapse.1
  · exact ⟨htimely, hnil, hend.2⟩

/-! ### The facts -/

variable (S b) in
def Exceeded (s : MPElection) : Prop := ∃ j ∈ S.nodes, b < (s.node j).currentBallot

variable (S b) in
/-- Where the laps start. -/
def Base (s : MPElection) : Prop :=
  (machine S).ReachableUnder (Unwrapped S) s ∧ b ≤ (s.node b.pid).currentBallot

variable (S b) in
def OwnerSeen (i : ℕ) (s : MPElection) : Prop :=
  (∀ a ∈ (s.node i).ballots, a.pid = b.pid → a = b) ∧
    ∀ m, (rounds S).Counts s i m → m.ballot.pid = b.pid → m.ballot = b

variable (links b) in
def Followed (i : ℕ) (s : MPElection) : Prop :=
  i = b.pid ∨ b.pid ∈ links i → (s.node i).leader = some b

variable (S links b) in
def Passed (i : ℕ) (s : MPElection) : Prop :=
  (∀ a ∈ (s.node i).ballots, b.pid ∈ links a.pid → (s.node i).leader = some b) ∧
    ∀ m, (rounds S).Counts s i m → b.pid ∈ links m.ballot.pid → m.currentLeader = b

variable (S b) in
abbrev Unless (P : ℕ → MPElection → Prop) (i : ℕ) (s : MPElection) : Prop := Exceeded S b s ∨ P i s

variable (S b) in
abbrev Above1 : MPElection → Prop := Machine.Above S.nodes (Base S b) (Unless S b (OwnerSeen S b))

variable (S links b) in
abbrev Above2 : MPElection → Prop := Machine.Above S.nodes (Above1 S b) (Unless S b (Followed links b))

variable (S links b) in
abbrev Above3 : MPElection → Prop := Machine.Above S.nodes (Above2 S links b) (Unless S b (Passed S links b))

variable (S links b) in
abbrev Above4 : MPElection → Prop :=
  Machine.Above S.nodes (Above3 S links b) (Unless S b fun i _ => i = b.pid ∨ b.pid ∈ links i)

theorem kept_base : (machine S).Kept (Steady S links) (Base S b) := fun _ _ _ hs hok hstep =>
  ⟨hs.1.step hok.1 hstep, hs.2.trans (currentBallot_le_step hok.1 hstep _)⟩

theorem kept_exceeded : (machine S).Kept (Steady S links) (Exceeded S b) := fun _ _ _ hs hok hstep => by
  obtain ⟨j, hj, hlt⟩ := hs
  exact ⟨j, hj, hlt.trans_le (currentBallot_le_step hok.1 hstep j)⟩

/-- As long as no ballot exceeds `b`, no ballot that is known does. -/
theorem Known.le {a : Ballot} (h : Known S s a) (hnot : ¬ Exceeded S b s) : a ≤ b :=
  h.2.trans (not_lt.mp fun hlt => hnot ⟨a.pid, h.1, hlt⟩)

theorem owner_eq (hs : Base S b s) (ho : b.pid ∈ S.nodes) (hnot : ¬ Exceeded S b s) :
    (s.node b.pid).currentBallot = b :=
  le_antisymm (not_lt.mp fun hlt => hnot ⟨b.pid, ho, hlt⟩) hs.2

/-- The leader of a node that follows `b` stays. -/
theorem hear_eq {c : MultiPaxosLeaderComp} {a : Ballot} (hleader : c.leader = some b) (ha : a ≤ b) :
    c.hear a = some b := by
  rw [hear, hleader]
  exact if_neg (not_lt.mpr ha)

/-! ### The stairs -/

/-- The replies that count after a step. -/
theorem counts_step (hs : (machine S).ReachableUnder (Unwrapped S) s) (hok : Steady S links s e)
    (hstep : s.step S e = some t) {m : MPHeartbeatReply} (hm : (rounds S).Counts t i m) :
    ¬ Beats i e ∧ ((rounds S).Counts s i m ∨ ∃ k ∈ S.nodes, Given s e m k) :=
  (rounds_step hok.1 hstep).counts (sound_of_unwrapped hs) hm

/-- Nothing exceeds `b` before a step after which nothing does. -/
theorem not_exceeded_before (hok : Steady S links s e) (hstep : s.step S e = some t) (hnot : ¬ Exceeded S b t) :
    ¬ Exceeded S b s := fun h => hnot (kept_exceeded s e t h hok hstep)

theorem OwnerSeen.step (hS : Agreed S) (hnodup : S.nodes.Nodup) (ho : b.pid ∈ S.nodes) (hs : Base S b s)
    (hok : Steady S links s e) (hstep : s.step S e = some t) (hnot : ¬ Exceeded S b t) (hi : i ∈ S.nodes)
    (h : Beats i e ∨ OwnerSeen S b i s) : OwnerSeen S b i t := by
  by_cases hbeats : Beats i e
  · refine ⟨fun a ha => ?_, fun m hm => absurd hbeats (counts_step hs.1 hok hstep hm).1⟩
    rw [(beat_cases hnodup hs.1 hok hstep hi hbeats).2.1] at ha
    cases ha
  have hseen := h.resolve_left hbeats
  refine ⟨fun a ha hpid => ?_, fun m hm hpid => ?_⟩
  · rcases quiet_step hstep hbeats with ⟨hballots, -⟩ | ⟨m, hm, hballots, -⟩
    · exact hseen.1 a (hballots ▸ ha) hpid
    · rw [hballots] at ha
      rcases List.mem_append.mp ha with ha | ha
      · exact hseen.1 a ha hpid
      · obtain rfl := List.mem_singleton.mp ha
        exact hseen.2 m hm hpid
  · rcases (counts_step hs.1 hok hstep hm).2 with hm | ⟨k, -, hgiven⟩
    · exact hseen.2 m hm hpid
    · rw [hgiven.ballot, (knownInv_of_unwrapped hS hs.1).pid k] at hpid
      rw [hgiven.ballot, hpid]
      exact owner_eq hs ho (not_exceeded_before hok hstep hnot)

theorem ownerSeen_stair (hS : Agreed S) (net : Network S.nodes links) (ho : b.pid ∈ S.nodes) :
    (machine S).Stair (Steady S links) S.nodes Beats (Base S b) (Unless S b (OwnerSeen S b)) :=
  .unless kept_exceeded
    (fun _ _ _ hs hok hstep hnot _ hi hbeats =>
      .step hS net.nodup ho hs hok hstep hnot hi (Or.inl hbeats))
    fun _ _ _ hs hok hstep hnot _ hi hseen => .step hS net.nodup ho hs hok hstep hnot hi (Or.inr hseen)

/-- The largest ballot of a round is known. -/
theorem KnownInv.top (h : KnownInv S s) (hi : i ∈ S.nodes) : Known S s (s.node i).top := by
  rcases (s.node i).top_mem with hmem | hown
  · exact h.ballots i hi _ hmem
  · rw [hown]
    exact h.own hi

/-- What a leader named in a reply that counts is at most. -/
theorem currentLeader_le (hS : Agreed S) (hs : (machine S).ReachableUnder (Unwrapped S) s)
    (hnot : ¬ Exceeded S b s) {m : MPHeartbeatReply} (hm : (rounds S).Counts s i m) : m.currentLeader ≤ b := by
  obtain ⟨j, hj, hsent⟩ := hm.1
  rcases ((knownInv_of_unwrapped hS hs).replies j hj i m hsent).2 with hdefault | hknown
  · rw [hdefault]
    exact not_lt.mp Ballot.not_lt_default
  · exact hknown.le hnot

theorem followed_stair (hS : Agreed S) (net : Network S.nodes links) (ho : b.pid ∈ S.nodes) :
    (machine S).Stair (Steady S links) S.nodes Beats (Above1 S b) (Unless S b (Followed links b)) := by
  have hclimb : ∀ s e t, Above1 S b s → Steady S links s e → (machine S).step s e = some t →
      ¬ Exceeded S b t → ∀ i ∈ S.nodes, Beats i e → Followed links b i t := by
    intro s e t hs hok hstep hnot i hi hbeats hlink
    have hbefore := not_exceeded_before hok hstep hnot
    have hinv := knownInv_of_unwrapped hS hs.1.1
    obtain ⟨htimely, -, hend⟩ := beat_step net hs.1.1 hok hstep hi hbeats
    have htop : (s.node i).top = b := by
      refine le_antisymm ((hinv.top hi).le hbefore) ((s.node i).le_top ?_)
      rcases hlink with rfl | hlink
      · exact Or.inr (owner_eq hs.1 ho hbefore).symm
      · obtain ⟨a, ha, hpid⟩ := List.mem_map.mp (htimely.mem_iff.mpr hlink)
        exact Or.inl (((hs.2 i hi).resolve_left hbefore).1 a ha hpid ▸ ha)
    rcases hend with ⟨a, had, hlt, -⟩ | ⟨-, hleader, -⟩
    · rw [htop] at hlt
      exact absurd ((hinv.leader i hi a had).le hbefore) (not_le.mpr hlt)
    · rw [hleader, htop]
  refine .unless kept_exceeded hclimb fun s e t hs hok hstep hnot i hi hfollowed => ?_
  by_cases hbeats : Beats i e
  · exact hclimb s e t hs hok hstep hnot i hi hbeats
  intro hlink
  rcases quiet_step hstep hbeats with ⟨-, hleader⟩ | ⟨m, hm, -, hleader⟩
  · rw [hleader]
    exact hfollowed hlink
  · rw [hleader]
    exact hear_eq (hfollowed hlink) (currentLeader_le hS hs.1.1 (not_exceeded_before hok hstep hnot) hm)

/-- A node hears that `b` is the leader. -/
theorem hear_self (hinv : KnownInv S s) (hzero : 0 ∉ S.nodes) (ho : b.pid ∈ S.nodes) (hnot : ¬ Exceeded S b s)
    (hi : i ∈ S.nodes) : (s.node i).hear b = some b := by
  unfold hear
  split_ifs with hlt
  · rfl
  · cases hl : (s.node i).leader with
    | none =>
      rw [hl] at hlt
      have hle : b ≤ default := not_lt.mp hlt
      have hdefault : b = default := le_antisymm hle (not_lt.mp Ballot.not_lt_default)
      have hpid : b.pid = 0 := congrArg Ballot.pid hdefault
      exact absurd (hpid ▸ ho) hzero
    | some a =>
      rw [hl] at hlt
      exact congrArg some (le_antisymm ((hinv.leader i hi a hl).le hnot) (not_lt.mp hlt))

theorem passed_stair (hS : Agreed S) (net : Network S.nodes links) (hzero : 0 ∉ S.nodes) (ho : b.pid ∈ S.nodes) :
    (machine S).Stair (Steady S links) S.nodes Beats (Above2 S links b) (Unless S b (Passed S links b)) := by
  have hclimb : ∀ s e t, Above2 S links b s → Steady S links s e → (machine S).step s e = some t →
      ¬ Exceeded S b t → ∀ i ∈ S.nodes, Beats i e → Passed S links b i t := by
    intro s e t hs hok hstep _ i hi hbeats
    refine ⟨fun a ha => ?_, fun m hm => absurd hbeats (counts_step hs.1.1.1 hok hstep hm).1⟩
    rw [(beat_step net hs.1.1.1 hok hstep hi hbeats).2.1] at ha
    cases ha
  refine .unless kept_exceeded hclimb fun s e t hs hok hstep hnot i hi hpassed => ?_
  by_cases hbeats : Beats i e
  · exact hclimb s e t hs hok hstep hnot i hi hbeats
  have hbefore := not_exceeded_before hok hstep hnot
  have hinv := knownInv_of_unwrapped hS hs.1.1.1
  refine ⟨fun a ha hlink => ?_, fun m hm hlink => ?_⟩
  · rcases quiet_step hstep hbeats with ⟨hballots, hleader⟩ | ⟨m, hm, hballots, hleader⟩
    · rw [hleader]
      exact hpassed.1 a (hballots ▸ ha) hlink
    · rw [hballots] at ha
      rw [hleader]
      rcases List.mem_append.mp ha with ha | ha
      · exact hear_eq (hpassed.1 a ha hlink) (currentLeader_le hS hs.1.1.1 hbefore hm)
      · rw [hpassed.2 m hm (List.mem_singleton.mp ha ▸ hlink)]
        exact hear_self hinv hzero ho hbefore hi
  · rcases (counts_step hs.1.1.1 hok hstep hm).2 with hm | ⟨k, hk, hgiven⟩
    · exact hpassed.2 m hm hlink
    · rw [hgiven.ballot, hinv.pid k] at hlink
      rw [hgiven.leader, (hs.2 k hk).resolve_left hbefore (Or.inr hlink)]
      rfl

/-- A node that is not linked to the owner of `b` raises its ballot. -/
theorem linked_stair (hS : Agreed S) (net : Network S.nodes links) (ho : b.pid ∈ S.nodes) :
    (machine S).Stair (Steady S links) S.nodes Beats (Above3 S links b)
      (Unless S b fun i _ => i = b.pid ∨ b.pid ∈ links i) := by
  refine .unless kept_exceeded (fun s e t hs hok hstep hnot i hi hbeats => ?_)
    fun _ _ _ _ _ _ _ _ _ hlink => hlink
  by_contra hcon
  obtain ⟨hne, hlink⟩ := not_or.mp hcon
  have hbefore := not_exceeded_before hok hstep hnot
  have hinv := knownInv_of_unwrapped hS hs.1.1.1.1
  obtain ⟨htimely, -, hend⟩ := beat_step net hs.1.1.1.1 hok hstep hi hbeats
  have hleader : (s.node i).leader = some b := by
    obtain ⟨k, hk, hko⟩ := net.common hi ho hne hlink
    obtain ⟨a, ha, rfl⟩ := List.mem_map.mp (htimely.mem_iff.mpr hk)
    exact ((hs.2 i hi).resolve_left hbefore).1 a ha hko
  rcases hend with ⟨a, had, -, hraised⟩ | ⟨habove, -⟩
  · rw [hleader] at had
    cases had
    exact hnot ⟨i, hi, hraised ▸ lt_raise le_rfl _⟩
  · have htop : (s.node i).top = b := le_antisymm ((hinv.top hi).le hbefore) (habove b hleader)
    rcases (s.node i).top_mem with hmem | hown
    · rw [htop] at hmem
      exact hlink (htimely.mem_iff.mp (List.mem_map.mpr ⟨b, hmem, rfl⟩))
    · refine hne ?_
      rw [← htop, hown, hinv.pid i]

theorem stairs (hS : Agreed S) (net : Network S.nodes links) (hzero : 0 ∉ S.nodes) (ho : b.pid ∈ S.nodes) :
    (machine S).Stairs (Steady S links) S.nodes Beats 4 (Base S b) (Above4 S links b) :=
  .cons (ownerSeen_stair hS net ho) <| .cons (followed_stair hS net ho) <|
    .cons (passed_stair hS net hzero ho) <| .cons (linked_stair hS net ho) <| .nil _

/-! ### At the top -/

/-- Four laps bring a ballot above that of a node that is not linked to all the others. -/
theorem exceeded_of_unlinked (hS : Agreed S) (net : Network S.nodes links) (hzero : 0 ∉ S.nodes)
    (hs : (machine S).ReachableUnder (Unwrapped S) s) {o x : ℕ} (ho : o ∈ S.nodes) (hx : x ∈ S.nodes)
    (hne : x ≠ o) (hlink : o ∉ links x) {laps : List (List (ℕ × MPEvent))} (hlen : laps.length = 4)
    (hlap : ∀ lap ∈ laps, Machine.Lap S.nodes Beats lap)
    (hok : (machine S).AllSteps (Steady S links) s laps.flatten)
    (hrun : (machine S).run s laps.flatten = some t) : Exceeded S (s.node o).currentBallot t := by
  have hpid : (s.node o).currentBallot.pid = o := (knownInv_of_unwrapped hS hs).pid o
  have hbase : Base S (s.node o).currentBallot s := ⟨hs, by rw [hpid]⟩
  have htop := (stairs hS net hzero (hpid.symm ▸ ho)).reach kept_base hbase hlen hlap hok hrun
  refine (htop.2 x hx).resolve_right ?_
  rw [hpid]
  exact not_or.mpr ⟨hne, hlink⟩

/-- **An unlinked leader does not stay.** From any state reached without a counter wrapping, four laps bring
a ballot above that of each node that some other node is not linked to. -/
theorem unlinked_overtaken (hS : Agreed S) (net : Network S.nodes links) (hzero : 0 ∉ S.nodes)
    (hs : (machine S).ReachableUnder (Unwrapped S) s) {laps : List (List (ℕ × MPEvent))} (hlen : laps.length = 4)
    (hlap : ∀ lap ∈ laps, Machine.Lap S.nodes Beats lap)
    (hok : (machine S).AllSteps (Steady S links) s laps.flatten)
    (hrun : (machine S).run s laps.flatten = some t) : ∀ o ∈ S.nodes, ∀ x ∈ S.nodes, x ≠ o → o ∉ links x →
      ∃ j ∈ S.nodes, (s.node o).currentBallot < (t.node j).currentBallot :=
  fun _ ho _ hx hne hlink => exceeded_of_unlinked hS net hzero hs ho hx hne hlink hlen hlap hok hrun

/-- A round in which everyone first gets all requests, then all replies, and then has its timeout. -/
def fullLap (S : MPSetup) (links : ℕ → List ℕ) (s : MPElection) : List (ℕ × MPEvent) :=
  (S.nodes.flatMap fun i => (links i).map fun j => (j, .request i (s.node i).hbRound)) ++
  (S.nodes.flatMap fun i => (links i).map fun j => (i, .reply ⟨(s.node i).hbRound, (s.node j).currentBallot,
    (s.node j).leader.getD default⟩)) ++
  S.nodes.map fun i => (i, .timeout ((s.node i).timer.elim 0 Timer.id))

/-- `n` of these rounds. -/
def fullLaps (S : MPSetup) (links : ℕ → List ℕ) : ℕ → MPElection → List (List (ℕ × MPEvent))
  | 0, _ => []
  | n + 1, s => fullLap S links s :: ((machine S).run s (fullLap S links s)).elim [] (fullLaps S links n)

theorem lap_fullLaps {n : ℕ} {lap : List (ℕ × MPEvent)} (h : lap ∈ fullLaps S links n s) :
    Machine.Lap S.nodes Beats lap := by
  induction n generalizing s with
  | zero => cases h
  | succ n ih =>
    rcases List.mem_cons.mp h with rfl | h
    · intro i hi
      exact ⟨_, List.mem_append_right _ (List.mem_map.mpr ⟨i, hi, rfl⟩), _, rfl⟩
    · cases hrun : (machine S).run s (fullLap S links s) with
      | none =>
        rw [hrun] at h
        cases h
      | some t =>
        rw [hrun] at h
        exact ih h

/-- Node 2 is between the others. -/
def trioLinks (i : ℕ) : List ℕ := if i = 2 then [1, 3] else [2]

theorem network_trio : Network trio.nodes trioLinks := ⟨by decide, by decide, by decide, by decide, by decide⟩

/-- Node 3 has the greatest ballot at the start. -/
theorem trio_overtaken : ∃ t, (machine trio).run (machine trio).init
      (fullLaps trio trioLinks 4 (machine trio).init).flatten = some t ∧
    ∃ j ∈ trio.nodes, (⟨0, 3⟩ : Ballot) < (t.node j).currentBallot := by
  obtain ⟨t, hrun⟩ : ∃ t, (machine trio).run (machine trio).init
      (fullLaps trio trioLinks 4 (machine trio).init).flatten = some t := Option.isSome_iff_exists.mp (by decide +kernel)
  have hok : (machine trio).AllSteps (Steady trio trioLinks) (machine trio).init
      (fullLaps trio trioLinks 4 (machine trio).init).flatten := by decide +kernel
  exact ⟨t, hrun, unlinked_overtaken (fun _ _ _ h => by cases h) network_trio (by decide)
    Machine.ReachableUnder.init (by decide +kernel) (fun _ h => lap_fullLaps h) hok hrun 3 (by decide) 1
    (by decide) (by decide) (by decide)⟩

end OmniPaxosBench.LeaderElection.MPElection
