import Mathlib.Data.Finset.Max
import OmniPaxosBench.LeaderElection.MultiPaxosOvertaking

/-! # Multi-Paxos style leader election: a leader that does not stay, and one that stays too long

First, all nodes are linked but two, the ends of a chain, and the nodes run in lockstep: in each lap all
messages of the round arrive first, and then the nodes have their timeouts, in any order. A node that is
linked to all the others then never raises its ballot (`lockstep_laps`), so that the greatest ballot stays
with the ends, and each of them is overtaken by the other, without end (`leads_laps`).

Second, only one node is linked to a majority. It keeps the leader it has, whether that one has a majority
or not (`Stuck.run`). -/

namespace OmniPaxosBench.LeaderElection.MPElection

open OmniPaxosBench.Lib MultiPaxosLeaderComp

variable {S : MPSetup} {links : ℕ → List ℕ} {s t : MPElection} {i j u : ℕ} {e : ℕ × MPEvent}
  {lap : List (ℕ × MPEvent)} {laps : List (List (ℕ × MPEvent))}

/-! ### Lockstep -/

/-- The messages of a round, and then the timeouts. -/
def Lockstep (nodes : List ℕ) (lap : List (ℕ × MPEvent)) : Prop :=
  ∃ exchange ends, lap = exchange ++ ends ∧ (∀ e ∈ exchange, ∀ i, ¬ Beats i e) ∧
    (∀ e ∈ ends, ∃ i, Beats i e) ∧ Machine.Lap nodes Beats ends

/-- All nodes are at the start of a round. -/
def Aligned (S : MPSetup) (s : MPElection) : Prop :=
  ∀ i ∈ S.nodes, (s.node i).ballots = [] ∧ ∀ m, ¬ (rounds S).Counts s i m

theorem aligned_init (S : MPSetup) : Aligned S (init S) :=
  fun _ _ => ⟨rfl, fun _ hm => hm.1.elim fun _ h => (ofRound_newHbRound h.2).elim⟩

/-- Linked to all the others. -/
def Universal (nodes : List ℕ) (links : ℕ → List ℕ) (u : ℕ) : Prop := ∀ j ∈ nodes, j ≠ u → j ∈ links u

variable (S links) in
def Exchanging (s : MPElection) (e : ℕ × MPEvent) : Prop := Steady S links s e ∧ ∀ i, ¬ Beats i e

variable (S links) in
def Ending (s : MPElection) (e : ℕ × MPEvent) : Prop := Steady S links s e ∧ ∃ i, Beats i e

variable (S) in
def Reached (s : MPElection) : Prop := (machine S).ReachableUnder (Unwrapped S) s

theorem kept_reached {ok : MPElection → ℕ × MPEvent → Prop} (h : ∀ s e, ok s e → Steady S links s e) :
    (machine S).Kept ok (Reached S) := fun s e _ hs hok hstep => hs.step (h s e hok).1 hstep

/-- A ballot is raised by a timeout only. -/
theorem currentBallot_quiet (hok : Steady S links s e) (hstep : s.step S e = some t) (hbeats : ¬ Beats i e) :
    (t.node i).currentBallot = (s.node i).currentBallot := by
  obtain ⟨k, me, c, out, rfl, hk, -, hturn, rfl⟩ := turn_of_step hstep
  by_cases hik : i = k
  · subst hik
    rw [node_set_self]
    cases hturn with
    | other _ _ _ same => exact same.ballot
    | answer => rfl
    | collect _ _ _ _ same => exact same.ballot
    | lapse id => exact absurd ⟨id, rfl⟩ hbeats
    | drop id => exact absurd ⟨id, rfl⟩ hbeats
    | follow id => exact absurd ⟨id, rfl⟩ hbeats
  · rw [node_set_of_ne hik]

/-! ### The messages of a round -/

variable (S) in
/-- The node has only heard of present ballots. -/
def PresentSeen (s : MPElection) (i : ℕ) : Prop :=
  (∀ a ∈ (s.node i).ballots, a = (s.node a.pid).currentBallot) ∧
    ∀ m, (rounds S).Counts s i m → m.ballot = (s.node m.ballot.pid).currentBallot

theorem presentSeen_of_aligned (h : Aligned S s) (hi : i ∈ S.nodes) : PresentSeen S s i := by
  obtain ⟨hnil, hnone⟩ := h i hi
  refine ⟨fun a ha => ?_, fun m hm => absurd hm (hnone m)⟩
  rw [hnil] at ha
  cases ha

theorem kept_presentSeen (hS : Agreed S) : (machine S).Kept (Exchanging S links)
    fun s => Reached S s ∧ ∀ i ∈ S.nodes, PresentSeen S s i := by
  intro s e t hs hok hstep
  have hsame : ∀ j, (t.node j).currentBallot = (s.node j).currentBallot :=
    fun j => currentBallot_quiet hok.1 hstep (hok.2 j)
  refine ⟨hs.1.step hok.1.1 hstep, fun i hi => ⟨fun a ha => ?_, fun m hm => ?_⟩⟩
  · rw [hsame]
    rcases quiet_step hstep (hok.2 i) with ⟨hballots, -⟩ | ⟨m, hm, hballots, -⟩
    · exact (hs.2 i hi).1 a (hballots ▸ ha)
    · rw [hballots] at ha
      rcases List.mem_append.mp ha with ha | ha
      · exact (hs.2 i hi).1 a ha
      · rw [List.mem_singleton.mp ha]
        exact (hs.2 i hi).2 m hm
  · rw [hsame]
    rcases (counts_step hs.1 hok.1 hstep hm).2 with hm | ⟨k, -, hgiven⟩
    · exact (hs.2 i hi).2 m hm
    · rw [hgiven.ballot, (knownInv_of_unwrapped hS hs.1).pid k]

theorem currentBallot_exchange {es : List (ℕ × MPEvent)} (hok : (machine S).AllSteps (Exchanging S links) s es)
    (hrun : (machine S).run s es = some t) (j : ℕ) : (t.node j).currentBallot = (s.node j).currentBallot := by
  have hkept : (machine S).Kept (Exchanging S links) fun _ => True := fun _ _ _ _ _ _ => trivial
  exact hkept.eq_of_run (f := fun s => (s.node j).currentBallot)
    (fun _ _ _ _ he hab => currentBallot_quiet he.1 hab (he.2 j)) trivial hok hrun

/-! ### The timeouts -/

/-- What the node has heard from its leader is at least the leader it has. -/
def InTime (s : MPElection) (i : ℕ) : Prop :=
  ∀ a, (s.node i).leader = some a → ∀ x ∈ (s.node i).ballots, x.pid = a.pid → a ≤ x

theorem inTime_of_presentSeen (hinv : KnownInv S s) (hi : i ∈ S.nodes) (h : PresentSeen S s i) : InTime s i := by
  intro a ha x hx hpid
  rw [h.1 x hx, hpid]
  exact (hinv.leader i hi a ha).2

/-- A node that is linked to all the others, and in time, keeps its ballot when its round ends. -/
theorem currentBallot_end (hS : Agreed S) (net : Network S.nodes links) (hs : Reached S s)
    (hok : Steady S links s e) (hstep : s.step S e = some t) (hu : u ∈ S.nodes) (huniv : Universal S.nodes links u)
    (htime : InTime s u) (hbeats : Beats u e) : (t.node u).currentBallot = (s.node u).currentBallot := by
  obtain ⟨htimely, -, ⟨a, had, hlt, -⟩ | ⟨-, -, hsame⟩⟩ := beat_step net hs hok hstep hu hbeats
  · refine absurd hlt (not_lt.mpr ?_)
    have hknown := (knownInv_of_unwrapped hS hs).leader u hu a had
    by_cases hau : a.pid = u
    · have hle := hknown.2
      rw [hau] at hle
      exact hle.trans ((s.node u).le_top (Or.inr rfl))
    · obtain ⟨x, hx, hpid⟩ := List.mem_map.mp (htimely.mem_iff.mpr (huniv a.pid hknown.1 hau))
      exact (htime a had x hx hpid).trans ((s.node u).le_top (Or.inl hx))
  · exact hsame

/-- A timeout of another node. -/
theorem node_of_not_beats (hok : Ending S links s e) (hstep : s.step S e = some t) (hbeats : ¬ Beats i e) :
    t.node i = s.node i := by
  obtain ⟨-, k, id, rfl⟩ := hok
  obtain ⟨k', me, c, out, heq, -, -, -, rfl⟩ := turn_of_step hstep
  cases heq
  refine node_set_of_ne fun hik => hbeats ⟨id, ?_⟩
  rw [hik]

theorem kept_inTime (hS : Agreed S) (net : Network S.nodes links) (hu : u ∈ S.nodes)
    (huniv : Universal S.nodes links u) (b : Ballot) : (machine S).Kept (Ending S links)
      fun s => Reached S s ∧ InTime s u ∧ (s.node u).currentBallot = b := by
  intro s e t ⟨hs, htime, hb⟩ hok hstep
  refine ⟨hs.step hok.1.1 hstep, ?_⟩
  by_cases hbeats : Beats u e
  · refine ⟨fun a _ x hx => ?_, (currentBallot_end hS net hs hok.1 hstep hu huniv htime hbeats).trans hb⟩
    rw [(beat_step net hs hok.1 hstep hu hbeats).2.1] at hx
    cases hx
  · unfold InTime
    rw [node_of_not_beats hok hstep hbeats]
    exact ⟨htime, hb⟩

/-- A node whose round has ended is at the start of the next one, until messages arrive again. -/
theorem aligned_stair (net : Network S.nodes links) : (machine S).Stair (Ending S links) S.nodes Beats (Reached S)
    fun i s => (s.node i).ballots = [] ∧ ∀ m, ¬ (rounds S).Counts s i m := by
  have hclimb : ∀ s e t, Reached S s → Ending S links s e → (machine S).step s e = some t →
      ∀ i ∈ S.nodes, Beats i e → (t.node i).ballots = [] ∧ ∀ m, ¬ (rounds S).Counts t i m :=
    fun s e t hs hok hstep i hi hbeats => ⟨(beat_step net hs hok.1 hstep hi hbeats).2.1,
      fun m hm => (counts_step hs hok.1 hstep hm).1 hbeats⟩
  refine ⟨hclimb, fun s e t hs hok hstep i hi hstart => ?_⟩
  by_cases hbeats : Beats i e
  · exact hclimb s e t hs hok hstep i hi hbeats
  refine ⟨?_, fun m hm => ?_⟩
  · rw [node_of_not_beats hok hstep hbeats]
    exact hstart.1
  · rcases (counts_step hs hok.1 hstep hm).2 with hm | ⟨k, -, ⟨p, rfl⟩, -, -⟩
    · exact hstart.2 m hm
    · obtain ⟨-, k', id, heq⟩ := hok
      cases heq

/-! ### Laps in lockstep -/

/-- **One lap.** -/
theorem lockstep_lap (hS : Agreed S) (net : Network S.nodes links) (hs : Reached S s) (hal : Aligned S s)
    (hlap : Lockstep S.nodes lap) (hok : (machine S).AllSteps (Steady S links) s lap)
    (hrun : (machine S).run s lap = some t) : (Reached S t ∧ Aligned S t) ∧
      ∀ u ∈ S.nodes, Universal S.nodes links u → (t.node u).currentBallot = (s.node u).currentBallot := by
  obtain ⟨exchange, ends, rfl, hquiet, hends, hall⟩ := hlap
  rw [Machine.run_append, Option.bind_eq_some_iff] at hrun
  obtain ⟨s₁, h₁, h₂⟩ := hrun
  have hok₁ : (machine S).AllSteps (Exchanging S links) s exchange := hok.append_left.and_forall hquiet
  have hok₂ : (machine S).AllSteps (Ending S links) s₁ ends := (hok.append_right h₁).and_forall hends
  obtain ⟨hs₁, hseen⟩ := (kept_presentSeen hS).run ⟨hs, fun i hi => presentSeen_of_aligned hal hi⟩ hok₁ h₁
  refine ⟨(aligned_stair net).lap (kept_reached fun _ _ h => h.1) hs₁ hok₂ h₂ hall, fun u hu huniv => ?_⟩
  have htime := inTime_of_presentSeen (knownInv_of_unwrapped hS hs₁) hu (hseen u hu)
  rw [((kept_inTime hS net hu huniv _).run ⟨hs₁, htime, rfl⟩ hok₂ h₂).2.2]
  exact currentBallot_exchange hok₁ h₁ u

/-- **Who is linked to all the others** keeps its ballot. -/
theorem lockstep_laps (hS : Agreed S) (net : Network S.nodes links) (hs : Reached S s) (hal : Aligned S s)
    (hlap : ∀ lap ∈ laps, Lockstep S.nodes lap) (hok : (machine S).AllSteps (Steady S links) s laps.flatten)
    (hrun : (machine S).run s laps.flatten = some t) : (Reached S t ∧ Aligned S t) ∧
      ∀ u ∈ S.nodes, Universal S.nodes links u → (t.node u).currentBallot = (s.node u).currentBallot := by
  induction laps generalizing s with
  | nil =>
    cases hrun
    exact ⟨⟨hs, hal⟩, fun _ _ _ => rfl⟩
  | cons lap laps ih =>
    rw [List.flatten_cons] at hok hrun
    rw [Machine.run_append, Option.bind_eq_some_iff] at hrun
    obtain ⟨s₁, h₁, h₂⟩ := hrun
    obtain ⟨⟨hs₁, hal₁⟩, hsame₁⟩ := lockstep_lap hS net hs hal (hlap lap List.mem_cons_self) hok.append_left h₁
    obtain ⟨hend, hsame₂⟩ := ih hs₁ hal₁ (fun l hl => hlap l (List.mem_cons_of_mem _ hl)) (hok.append_right h₁) h₂
    exact ⟨hend, fun u hu huniv => (hsame₂ u hu huniv).trans (hsame₁ u hu huniv)⟩

theorem lockstep_fullLaps {n : ℕ} (h : lap ∈ fullLaps S links n s) : Lockstep S.nodes lap := by
  induction n generalizing s with
  | zero => cases h
  | succ n ih =>
    rcases List.mem_cons.mp h with rfl | h
    · refine ⟨_, _, rfl, fun e he i => ?_, fun e he => ?_, fun i hi => ?_⟩
      · rintro ⟨id, rfl⟩
        simp at he
      · obtain ⟨i, -, rfl⟩ := List.mem_map.mp he
        exact ⟨i, _, rfl⟩
      · exact ⟨_, List.mem_map.mpr ⟨i, hi, rfl⟩, _, rfl⟩
    · cases hrun : (machine S).run s (fullLap S links s) with
      | none =>
        rw [hrun] at h
        cases h
      | some t =>
        rw [hrun] at h
        exact ih h

theorem Lockstep.toLap {nodes : List ℕ} (h : Lockstep nodes lap) : Machine.Lap nodes Beats lap := by
  obtain ⟨exchange, ends, rfl, -, -, hall⟩ := h
  intro i hi
  obtain ⟨e, he, hact⟩ := hall i hi
  exact ⟨e, List.mem_append_right _ he, hact⟩

/-! ### The ends of a chain -/

/-- All nodes are linked but `a` and `b`. -/
structure Chain (nodes : List ℕ) (links : ℕ → List ℕ) (a b : ℕ) : Prop where
  left : a ∈ nodes
  right : b ∈ nodes
  ne : a ≠ b
  gap : b ∉ links a
  others : ∀ u ∈ nodes, u ≠ a → u ≠ b → Universal nodes links u

theorem Chain.perm {nodes nodes' : List ℕ} {a b : ℕ} (chain : Chain nodes links a b) (h : nodes'.Perm nodes) :
    Chain nodes' links a b :=
  ⟨h.mem_iff.mpr chain.left, h.mem_iff.mpr chain.right, chain.ne, chain.gap, fun u hu hua hub j hj hju =>
    chain.others u (h.mem_iff.mp hu) hua hub j (h.mem_iff.mp hj) hju⟩

/-- `i` is an end of the chain, and has the greatest ballot. -/
def Leads (nodes : List ℕ) (a b : ℕ) (s : MPElection) (i : ℕ) : Prop :=
  (i = a ∨ i = b) ∧ ∀ j ∈ nodes, (s.node j).currentBallot ≤ (s.node i).currentBallot

variable {a b : ℕ}

/-- The other end. -/
theorem Chain.unlinked (chain : Chain S.nodes links a b) (net : Network S.nodes links) (hi : i = a ∨ i = b) :
    i ∈ S.nodes ∧ ∃ x ∈ S.nodes, x ≠ i ∧ i ∉ links x := by
  rcases hi with rfl | rfl
  · exact ⟨chain.left, b, chain.right, chain.ne.symm, fun h => chain.gap (net.symm b chain.right i h)⟩
  · exact ⟨chain.right, a, chain.left, chain.ne, chain.gap⟩

theorem exists_greatest (s : MPElection) {nodes : List ℕ} (hi : i ∈ nodes) :
    ∃ j ∈ nodes, ∀ k ∈ nodes, (s.node k).currentBallot ≤ (s.node j).currentBallot := by
  obtain ⟨j, hj, hmax⟩ := nodes.toFinset.exists_max_image (fun k => (s.node k).currentBallot)
    ⟨i, List.mem_toFinset.mpr hi⟩
  exact ⟨j, List.mem_toFinset.mp hj, fun k hk => hmax k (List.mem_toFinset.mpr hk)⟩

/-- **Four laps**: the greatest ballot is a greater one, and again that of an end. -/
theorem leads_four (hS : Agreed S) (net : Network S.nodes links) (hzero : 0 ∉ S.nodes)
    (chain : Chain S.nodes links a b) (hs : Reached S s) (hal : Aligned S s) (hlead : Leads S.nodes a b s i)
    (hlen : laps.length = 4) (hlap : ∀ lap ∈ laps, Lockstep S.nodes lap)
    (hok : (machine S).AllSteps (Steady S links) s laps.flatten)
    (hrun : (machine S).run s laps.flatten = some t) :
    ∃ j, Leads S.nodes a b t j ∧ (s.node i).currentBallot < (t.node j).currentBallot := by
  obtain ⟨hi, x, hx, hne, hlink⟩ := chain.unlinked net hlead.1
  obtain ⟨j, hj, hlt⟩ := exceeded_of_unlinked hS net hzero hs hi hx hne hlink hlen
    (fun lap hl => (hlap lap hl).toLap) hok hrun
  obtain ⟨g, hg, hmax⟩ := exists_greatest t hi
  have hltg := hlt.trans_le (hmax j hj)
  refine ⟨g, ⟨?_, hmax⟩, hltg⟩
  by_contra hend
  obtain ⟨hga, hgb⟩ := not_or.mp hend
  rw [(lockstep_laps hS net hs hal hlap hok hrun).2 g hg (chain.others g hg hga hgb)] at hltg
  exact not_lt.mpr (hlead.2 g hg) hltg

/-- The position of a ballot among those of the two ends. -/
def rank (a b : ℕ) (x : Ballot) : ℕ := 2 * x.n + if x.pid = max a b then 1 else 0

theorem rank_lt {x y : Ballot} (hx : x.pid = a ∨ x.pid = b) (hy : y.pid = a ∨ y.pid = b) (h : x < y) :
    rank a b x < rank a b y := by
  unfold rank
  rcases Ballot.lt_iff.mp h with hn | ⟨hn, hpid⟩
  · split_ifs <;> omega
  · have hymax : y.pid = max a b := by omega
    rw [if_pos hymax, if_neg (by omega)]
    omega

/-- **Laps without end.** -/
theorem leads_laps (hS : Agreed S) (net : Network S.nodes links) (hzero : 0 ∉ S.nodes)
    (chain : Chain S.nodes links a b) (hs : Reached S s) (hal : Aligned S s) (hlead : Leads S.nodes a b s i)
    {m : ℕ} (hlen : laps.length = 4 * m) (hlap : ∀ lap ∈ laps, Lockstep S.nodes lap)
    (hok : (machine S).AllSteps (Steady S links) s laps.flatten)
    (hrun : (machine S).run s laps.flatten = some t) :
    ∃ j, Leads S.nodes a b t j ∧ rank a b (s.node i).currentBallot + m ≤ rank a b (t.node j).currentBallot := by
  induction m generalizing s i laps with
  | zero =>
    obtain rfl := List.length_eq_zero_iff.mp hlen
    cases hrun
    exact ⟨i, hlead, le_rfl⟩
  | succ m ih =>
    have hsplit : laps.flatten = (laps.take 4).flatten ++ (laps.drop 4).flatten := by
      rw [← List.flatten_append, List.take_append_drop]
    rw [hsplit] at hok hrun
    rw [Machine.run_append, Option.bind_eq_some_iff] at hrun
    obtain ⟨s₁, h₁, h₂⟩ := hrun
    have hlap₁ : ∀ lap ∈ laps.take 4, Lockstep S.nodes lap := fun l hl => hlap l (List.mem_of_mem_take hl)
    have hlap₂ : ∀ lap ∈ laps.drop 4, Lockstep S.nodes lap := fun l hl => hlap l (List.mem_of_mem_drop hl)
    obtain ⟨g, hg, hlt⟩ := leads_four hS net hzero chain hs hal hlead (by rw [List.length_take]; omega) hlap₁
      hok.append_left h₁
    obtain ⟨⟨hs₁, hal₁⟩, -⟩ := lockstep_laps hS net hs hal hlap₁ hok.append_left h₁
    obtain ⟨j, hj, hle⟩ := ih hs₁ hal₁ hg (by rw [List.length_drop]; omega) hlap₂ (hok.append_right h₁) h₂
    have hpid : ∀ {s : MPElection} {i : ℕ}, Reached S s → Leads S.nodes a b s i →
        (s.node i).currentBallot.pid = a ∨ (s.node i).currentBallot.pid = b := by
      intro s i hs hlead
      rw [(knownInv_of_unwrapped hS hs).pid i]
      exact hlead.1
    have hrank := rank_lt (hpid hs hlead) (hpid hs₁ hg) hlt
    exact ⟨j, hj, by omega⟩

/-! ### A leader without a majority -/

/-- A node that keeps its leader indicates nothing. -/
theorem indications_eq {x : Ballot} (hstep : s.step S e = some t) (hs : (s.node i).leader = some x)
    (ht : (t.node i).leader = some x) : t.indications i = s.indications i := by
  obtain ⟨k, me, c, out, rfl, -, -, hmove, rfl⟩ := step_cases hstep
  by_cases hik : i = k
  · subst hik
    rw [node_set_self] at ht
    rw [indications_set_self]
    generalize indicationsOf out = ls at hmove
    cases hmove with
    | quiet => exact List.append_nil _
    | drop _ _ _ _ _ leader =>
      rw [ht] at leader
      cases leader
    | adopt _ _ _ _ above _ leader =>
      rw [ht] at leader
      cases leader
      exact absurd (above x hs) (lt_irrefl x)
    | takeOver m _ takes _ leader =>
      rw [ht] at leader
      cases leader
      have hlt := takes.2.2.2
      rw [hs] at hlt
      exact absurd hlt (lt_irrefl _)
  · exact indications_set_of_ne hik

variable (S) in
/-- Node `u` follows `x`, and hears of it from its owner. -/
structure Stuck (u : ℕ) (x : Ballot) (s : MPElection) : Prop where
  base : Base S x s
  greatest : ¬ Exceeded S x s
  seen : OwnerSeen S x u s
  follows : (s.node u).leader = some x

/-- **The leader stays**, where only node `u` is linked to a majority, and to the leader. -/
theorem Stuck.step (hS : Agreed S) (hnodup : S.nodes.Nodup) {x : Ballot} (ho : x.pid ∈ S.nodes) (hu : u ∈ S.nodes)
    (hlink : x.pid ∈ links u) (honly : ∀ i ∈ S.nodes, QuorumConnected S links i → i = u)
    (h : Stuck S u x s) (hok : Steady S links s e) (hstep : s.step S e = some t) : Stuck S u x t ∧
      (∀ j ∈ S.nodes, (t.node j).currentBallot = (s.node j).currentBallot) ∧
      t.indications u = s.indications u := by
  have hinv := knownInv_of_unwrapped hS h.base.1
  have htop : Beats u e → (s.node u).top = x := by
    intro hbeats
    obtain ⟨a, ha, hpid⟩ := List.mem_map.mp ((beat_cases hnodup h.base.1 hok hstep hu hbeats).1.mem_iff.mpr hlink)
    exact le_antisymm ((hinv.top hu).le h.greatest) ((s.node u).le_top (Or.inl (h.seen.1 a ha hpid ▸ ha)))
  have hsame : ∀ j ∈ S.nodes, (t.node j).currentBallot = (s.node j).currentBallot := by
    intro j hj
    by_cases hbeats : Beats j e
    · obtain ⟨-, -, hlapse | ⟨hquorum, ⟨a, had, hlt, -⟩ | hfollow⟩⟩ := beat_cases hnodup h.base.1 hok hstep hj hbeats
      · exact hlapse.2.2
      · obtain rfl := honly j hj hquorum
        rw [h.follows] at had
        cases had
        exact absurd hlt (htop hbeats ▸ lt_irrefl _)
      · exact hfollow.2.2
    · exact currentBallot_quiet hok hstep hbeats
  have hleader : (t.node u).leader = some x := by
    by_cases hbeats : Beats u e
    · obtain ⟨-, -, hlapse | ⟨-, ⟨a, had, hlt, -⟩ | hfollow⟩⟩ := beat_cases hnodup h.base.1 hok hstep hu hbeats
      · exact hlapse.2.1.trans h.follows
      · rw [h.follows] at had
        cases had
        exact absurd hlt (htop hbeats ▸ lt_irrefl _)
      · rw [hfollow.2.1, htop hbeats]
    · rcases quiet_step hstep hbeats with ⟨-, hleader⟩ | ⟨m, hm, -, hleader⟩
      · exact hleader.trans h.follows
      · exact hleader.trans (hear_eq h.follows (currentLeader_le hS h.base.1 h.greatest hm))
  have hnot : ¬ Exceeded S x t := fun ⟨j, hj, hlt⟩ => h.greatest ⟨j, hj, hsame j hj ▸ hlt⟩
  exact ⟨⟨kept_base s e t h.base hok hstep, hnot, .step hS hnodup ho h.base hok hstep hnot hu (Or.inr h.seen),
    hleader⟩, hsame, indications_eq hstep h.follows hleader⟩

/-- **As long as the links stay so**, no ballot is raised, and node `u` indicates nothing. -/
theorem Stuck.run (hS : Agreed S) (hnodup : S.nodes.Nodup) {x : Ballot} (ho : x.pid ∈ S.nodes) (hu : u ∈ S.nodes)
    (hlink : x.pid ∈ links u) (honly : ∀ i ∈ S.nodes, QuorumConnected S links i → i = u)
    (h : Stuck S u x s) {es : List (ℕ × MPEvent)} (hok : (machine S).AllSteps (Steady S links) s es)
    (hrun : (machine S).run s es = some t) : (t.node u).leader = some x ∧ t.indications u = s.indications u ∧
      ∀ j ∈ S.nodes, (t.node j).currentBallot = (s.node j).currentBallot := by
  have hkept : (machine S).Kept (Steady S links) (Stuck S u x) := fun _ _ _ hs he hst =>
    (hs.step hS hnodup ho hu hlink honly he hst).1
  refine ⟨(hkept.run h hok hrun).follows, ?_, fun j hj => ?_⟩
  · exact hkept.eq_of_run (f := fun s => s.indications u)
      (fun _ _ _ hs he hst => (hs.step hS hnodup ho hu hlink honly he hst).2.2) h hok hrun
  · exact hkept.eq_of_run (f := fun s => (s.node j).currentBallot)
      (fun _ _ _ hs he hst => (hs.step hS hnodup ho hu hlink honly he hst).2.1 j hj) h hok hrun

end OmniPaxosBench.LeaderElection.MPElection
