import OmniPaxosBench.Experiment.ReconfigClient
import OmniPaxosBench.Lib.Machine
import Mathlib.Data.List.TakeWhile
import Mathlib.Order.Interval.Finset.Nat

/-! # Waiting for the preloaded proposals

In its setup a `ReconfigurationClient` waits for the answers to the preloaded proposals `1, …, N`, with a
counter that starts at `N`. Every answer counts, also a repeated one, so the counter says that all
proposals have been answered just if no answer was repeated (`preloadWaits_iff`). A `Leader` message
that names nobody ends the client with a failed assertion; `heard` are the messages before the first of
them. -/

namespace OmniPaxosBench.Experiment.ReconfigurationClient

open OmniPaxosBench.Lib OmniPaxosBench.OmniPaxos

/-- A message with the time it is received at. -/
abbrev TimedMsg := ℕ × AtomicBroadcastMsg

/-- The messages of the setup: `Leader`, and answers to one of the proposals `1, …, N`. -/
def SetupMsg (N : ℕ) : AtomicBroadcastMsg → Prop
  | .leader _ _ => True
  | .proposalResp data _ _ => ∃ id, idOf data = .ok id ∧ 1 ≤ id ∧ id ≤ N
  | .proposal _ | .reconfigurationProposal _ | .reconfigurationResp _ _ _ => False

/-- The id that a message answers. -/
def answeredId : AtomicBroadcastMsg → Option ℕ
  | .proposalResp data _ _ => (idOf data).toOption
  | _ => none

/-- The ids answered by a list of messages, repeated ones repeatedly. -/
def answered (es : List TimedMsg) : List ℕ := es.filterMap fun e => answeredId e.2

/-- The message names a leader, or is none that does. -/
def namesLeader : AtomicBroadcastMsg → Bool
  | .leader pid _ => pid ≠ 0
  | _ => true

/-- The messages before the first one at which the client panics. -/
def heard (es : List TimedMsg) : List TimedMsg := es.takeWhile fun e => namesLeader e.2

/-- The client, and the messages it receives one after the other. -/
def receiving (c : ReconfigurationClient) : Machine ReconfigurationClient TimedMsg where
  init := c
  step c e := (c.receiveMessage e.1 e.2).toOption.map Prod.fst

/-- The counter does not underflow: there is no panic, and it does not wrap around. -/
def NoUnderflow (c : ReconfigurationClient) (e : TimedMsg) : Prop :=
  c.receiveMessage e.1 e.2 ≠ .error "attempt to subtract with overflow" ∧
    ∀ t outs, c.receiveMessage e.1 e.2 = .ok (t, outs) → t.remPreloadedProposals ≤ c.remPreloadedProposals

/-- **The preload phase waits for every proposal**: the counter never underflows, and the latch is counted
down only after each of the proposals `1, …, N` was answered. -/
structure PreloadWaits (N : ℕ) (c : ReconfigurationClient) (es : List TimedMsg) : Prop where
  counter : c.receiving.AllSteps NoUnderflow c es
  latch : ∀ pre t, pre <+: es → c.receiving.run c pre = some t →
    t.leaderElectionLatch < c.leaderElectionLatch → ∀ id, 1 ≤ id → id ≤ N → id ∈ answered pre

/-! ### The counter -/

/-- The client in its setup, with `r` answers to go. -/
structure Setup (N r : ℕ) (c : ReconfigurationClient) : Prop where
  state : c.state = .setup
  pending : c.pendingProposals = ∅
  preloaded : c.numPreloadedProposals = N
  rem : c.remPreloadedProposals = r
  latch : c.leaderElectionLatch = if r = 0 then 0 else 1

variable {N r : ℕ} {c t : ReconfigurationClient} {e : TimedMsg} {es pre : List TimedMsg}

/-- **A `Leader` message** changes nothing that is counted. -/
theorem Setup.leader (h : Setup N r c) {now pid round : ℕ} (hpid : pid ≠ 0) :
    ∃ t, c.receiveMessage now (.leader pid round) = .ok (t, []) ∧ Setup N r t := by
  refine ⟨{ c with currentLeader := pid, leaderRound := round }, ?_, ⟨h.state, h.pending, h.preloaded, h.rem,
    h.latch⟩⟩
  change c.handleLeader now pid round = _
  unfold handleLeader
  rw [if_pos h.state, if_neg hpid]

theorem Setup.leader_zero (h : Setup N r c) {now round : ℕ} :
    c.receiveMessage now (.leader 0 round) = .error "assertion failed: pid > 0" := by
  change c.handleLeader now 0 round = _
  unfold handleLeader
  rw [if_pos h.state, if_pos rfl]

/-- **An answer** counts, whatever its id. -/
theorem Setup.proposalResp (h : Setup N r c) (now l round : ℕ) {id : ℕ} {data : Data}
    (hid : idOf data = .ok id) (hle : id ≤ N) :
    c.receiveMessage now (.proposalResp data l round) = c.handlePreloadedResp l round := by
  have hnone : c.pendingProposals.lookup id = none := by rw [h.pending, Finmap.lookup_empty]
  change c.handleProposalResp now data l round = _
  rw [handleProposalResp_of_none l round (by rw [h.state]; decide) hid hnone,
    if_pos ⟨by rw [h.preloaded]; exact hle, h.state⟩]

/-- An answer too many. -/
theorem Setup.preloadedResp_zero (h : Setup N 0 c) {l round : ℕ}
    (he : c.receiveMessage e.1 e.2 = c.handlePreloadedResp l round) : ¬ NoUnderflow c e := by
  rintro ⟨hno, hle⟩
  rw [he] at hno hle
  rcases Build.sub_of_lt c.build 64 (Nat.lt_one_iff.mpr h.rem) (by decide) with
    ⟨-, hover⟩ | ⟨-, n, hwrap, hlt⟩
  · refine hno ?_
    unfold handlePreloadedResp
    rw [hover]
    rfl
  · exact Nat.not_lt.mpr (hle _ _ (handlePreloadedResp_of_sub hwrap)) hlt

theorem Setup.preloadedResp_succ (h : Setup N (r + 1) c) (l round : ℕ) :
    ∃ t, c.handlePreloadedResp l round = .ok (t, []) ∧ Setup N r t := by
  have hlatch : c.leaderElectionLatch = 1 := by rw [h.latch, if_neg (Nat.succ_ne_zero r)]
  have hsub : c.build.sub 64 c.remPreloadedProposals 1 = .ok r := by
    rw [h.rem, Build.sub_eq (Nat.le_add_left 1 r), Nat.add_sub_cancel]
  refine ⟨_, handlePreloadedResp_of_sub hsub, h.state, h.pending, h.preloaded, rfl, ?_⟩
  dsimp only
  rw [hlatch]

/-- The counter of a client in its setup does not grow. -/
theorem Setup.noUnderflow (h : Setup N r c) {k : ℕ} (ht : c.receiveMessage e.1 e.2 = .ok (t, []))
    (h' : Setup N k t) (hk : k ≤ r) : NoUnderflow c e := by
  refine ⟨by rw [ht]; exact fun hc => (nomatch hc), fun t' outs ht' => ?_⟩
  rw [ht] at ht'
  cases ht'
  rw [h.rem, h'.rem]
  exact hk

/-- What a message of the setup can do. -/
theorem Setup.cases (h : Setup N r c) (he : SetupMsg N e.2) :
    (namesLeader e.2 = false ∧ c.receiveMessage e.1 e.2 = .error "assertion failed: pid > 0") ∨
    (namesLeader e.2 = true ∧ answeredId e.2 = none ∧
      ∃ t, c.receiveMessage e.1 e.2 = .ok (t, []) ∧ Setup N r t) ∨
    (namesLeader e.2 = true ∧ ∃ id, answeredId e.2 = some id ∧
      ((r = 0 ∧ ¬ NoUnderflow c e) ∨
        ∃ k t, r = k + 1 ∧ c.receiveMessage e.1 e.2 = .ok (t, []) ∧ Setup N k t)) := by
  obtain ⟨now, m⟩ := e
  cases m with
  | leader pid round =>
    by_cases hpid : pid = 0
    · subst hpid
      exact Or.inl ⟨rfl, h.leader_zero⟩
    · exact Or.inr (Or.inl ⟨by simp [namesLeader, hpid], rfl, h.leader hpid⟩)
  | proposalResp data l round =>
    obtain ⟨id, hid, -, hle⟩ := he
    refine Or.inr (Or.inr ⟨rfl, id, by simp [answeredId, hid, Except.toOption], ?_⟩)
    have hresp := h.proposalResp now l round hid hle
    cases r with
    | zero => exact Or.inl ⟨rfl, h.preloadedResp_zero hresp⟩
    | succ k =>
      obtain ⟨t, ht, hs⟩ := h.preloadedResp_succ l round
      exact Or.inr ⟨k, t, rfl, hresp.trans ht, hs⟩
  | proposal p => exact he.elim
  | reconfigurationProposal rp => exact he.elim
  | reconfigurationResp l round config => exact he.elim

/-! ### Whole runs -/

variable {d : ReconfigurationClient}

theorem step_of_ok (h : c.receiveMessage e.1 e.2 = .ok (t, [])) : d.receiving.step c e = some t := by
  change (c.receiveMessage e.1 e.2).toOption.map Prod.fst = some t
  rw [h]
  rfl

theorem step_of_error {m : String} (h : c.receiveMessage e.1 e.2 = .error m) :
    d.receiving.step c e = none := by
  change (c.receiveMessage e.1 e.2).toOption.map Prod.fst = none
  rw [h]
  rfl

theorem heard_cons (h : namesLeader e.2 = true) : heard (e :: es) = e :: heard es :=
  List.takeWhile_cons_of_pos h

theorem answered_cons_none (h : answeredId e.2 = none) : answered (e :: es) = answered es := by
  simp [answered, h]

theorem answered_cons_some {id : ℕ} (h : answeredId e.2 = some id) :
    answered (e :: es) = id :: answered es := by
  simp [answered, h]

theorem Setup.allSteps_cons (h : Setup N r c) {k : ℕ} (ht : c.receiveMessage e.1 e.2 = .ok (t, []))
    (h' : Setup N k t) (hk : k ≤ r) :
    d.receiving.AllSteps NoUnderflow c (e :: es) ↔ d.receiving.AllSteps NoUnderflow t es := by
  rw [Machine.allSteps_cons_iff (step_of_ok ht), and_iff_right (h.noUnderflow ht h' hk)]

/-- The counter does not underflow just if there are no more answers than it counts. -/
theorem Setup.allSteps_iff (h : Setup N r c) (hes : ∀ e ∈ es, SetupMsg N e.2) :
    d.receiving.AllSteps NoUnderflow c es ↔ (answered (heard es)).length ≤ r := by
  induction es generalizing c r with
  | nil => exact iff_of_true trivial (Nat.zero_le r)
  | cons e es ih =>
    have htail : ∀ e' ∈ es, SetupMsg N e'.2 := fun e' he' => hes e' (List.mem_cons_of_mem e he')
    rcases h.cases (hes e List.mem_cons_self) with ⟨hnobody, hpanic⟩ | ⟨hnames, hnone, t, ht, hsetup⟩ |
      ⟨hnames, id, hid, hresp⟩
    · refine iff_of_true ⟨⟨?_, fun t outs ht => ?_⟩, fun t ht => ?_⟩ ?_
      · rw [hpanic]
        exact fun hc => absurd (Except.error.inj hc) (by decide)
      · rw [hpanic] at ht
        cases ht
      · rw [step_of_error hpanic] at ht
        cases ht
      · rw [heard, List.takeWhile_cons_of_neg (by rw [hnobody]; decide)]
        exact Nat.zero_le r
    · rw [heard_cons hnames, answered_cons_none hnone, h.allSteps_cons ht hsetup le_rfl, ih hsetup htail]
    · rw [heard_cons hnames, answered_cons_some hid, List.length_cons]
      rcases hresp with ⟨rfl, hover⟩ | ⟨k, t, rfl, ht, hsetup⟩
      · exact iff_of_false (fun hall => hover hall.1) (by omega)
      · rw [Nat.add_le_add_iff_right, h.allSteps_cons ht hsetup (Nat.le_succ k), ih hsetup htail]

/-- After a run without a panic or an underflow the counter has counted the answers of all messages. -/
theorem Setup.run (h : Setup N r c) (hes : ∀ e ∈ es, SetupMsg N e.2)
    (hcounter : d.receiving.AllSteps NoUnderflow c es) (hrun : d.receiving.run c es = some t) :
    (∀ e ∈ es, namesLeader e.2 = true) ∧ ∃ k, r = k + (answered es).length ∧ Setup N k t := by
  induction es generalizing c r with
  | nil =>
    cases hrun
    exact ⟨by simp, r, rfl, h⟩
  | cons e es ih =>
    have htail : ∀ e' ∈ es, SetupMsg N e'.2 := fun e' he' => hes e' (List.mem_cons_of_mem e he')
    rw [Machine.run_cons, Option.bind_eq_some_iff] at hrun
    obtain ⟨s, hs, hrest⟩ := hrun
    rcases h.cases (hes e List.mem_cons_self) with ⟨hnobody, hpanic⟩ | ⟨hnames, hnone, s', hs', hsetup⟩ |
      ⟨hnames, id, hid, hresp⟩
    · rw [step_of_error hpanic] at hs
      cases hs
    · rw [step_of_ok hs'] at hs
      cases hs
      have hcounter' := (h.allSteps_cons hs' hsetup le_rfl).mp hcounter
      obtain ⟨hall, k, hk, hfinal⟩ := ih hsetup htail hcounter' hrest
      rw [answered_cons_none hnone]
      exact ⟨List.forall_mem_cons.mpr ⟨hnames, hall⟩, k, hk, hfinal⟩
    · rcases hresp with ⟨-, hover⟩ | ⟨k', s', rfl, hs', hsetup⟩
      · exact absurd hcounter.1 hover
      · rw [step_of_ok hs'] at hs
        cases hs
        have hcounter' := (h.allSteps_cons hs' hsetup (Nat.le_succ k')).mp hcounter
        obtain ⟨hall, k, hk, hfinal⟩ := ih hsetup htail hcounter' hrest
        rw [answered_cons_some hid, List.length_cons]
        exact ⟨List.forall_mem_cons.mpr ⟨hnames, hall⟩, k, by omega, hfinal⟩

/-- Messages that name leaders, with no more answers than the counter counts, are all received. -/
theorem Setup.exists_run (h : Setup N r c) (hes : ∀ e ∈ es, SetupMsg N e.2)
    (hnames : ∀ e ∈ es, namesLeader e.2 = true) (hcount : (answered es).length ≤ r) :
    ∃ t, d.receiving.run c es = some t := by
  induction es generalizing c r with
  | nil => exact ⟨c, rfl⟩
  | cons e es ih =>
    have htail : ∀ e' ∈ es, SetupMsg N e'.2 := fun e' he' => hes e' (List.mem_cons_of_mem e he')
    have hleader : namesLeader e.2 = true := hnames e List.mem_cons_self
    have hnames' : ∀ e' ∈ es, namesLeader e'.2 = true := fun e' he' => hnames e' (List.mem_cons_of_mem e he')
    rcases h.cases (hes e List.mem_cons_self) with ⟨hnobody, -⟩ | ⟨-, hnone, s, hs, hsetup⟩ | ⟨-, id, hid, hresp⟩
    · rw [hleader] at hnobody
      cases hnobody
    · rw [Machine.run_cons, step_of_ok hs]
      exact ih hsetup htail hnames' (by rwa [answered_cons_none hnone] at hcount)
    · rw [answered_cons_some hid, List.length_cons] at hcount
      rcases hresp with ⟨rfl, -⟩ | ⟨k, s, rfl, hs, hsetup⟩
      · omega
      · rw [Machine.run_cons, step_of_ok hs]
        exact ih hsetup htail hnames' (by omega)

/-! ### The answers -/

theorem answered_mem (hes : ∀ e ∈ es, SetupMsg N e.2) {id : ℕ} (h : id ∈ answered es) : 1 ≤ id ∧ id ≤ N := by
  obtain ⟨⟨now, m⟩, he, hid⟩ := List.mem_filterMap.mp h
  have hm := hes _ he
  cases m with
  | proposalResp data l round =>
    obtain ⟨id', hid', hbounds⟩ := hm
    simp only [answeredId, hid', Except.toOption, Option.some.injEq] at hid
    rw [← hid]
    exact hbounds
  | leader pid round => cases hid
  | proposal p => cases hid
  | reconfigurationProposal rp => cases hid
  | reconfigurationResp l round config => cases hid

/-- `N` answers are one for each proposal just if none is repeated. -/
theorem all_answered_iff {ids : List ℕ} (hids : ∀ id ∈ ids, 1 ≤ id ∧ id ≤ N) (hlen : ids.length = N) :
    (∀ id, 1 ≤ id → id ≤ N → id ∈ ids) ↔ ids.Nodup := by
  have hsub : ids.toFinset ⊆ Finset.Icc 1 N := fun id hid =>
    Finset.mem_Icc.mpr (hids id (List.mem_toFinset.mp hid))
  constructor
  · intro hall
    have hcard : N ≤ ids.toFinset.card := by
      have hle := Finset.card_le_card (s := Finset.Icc 1 N) (t := ids.toFinset) fun id hid => by
        have := Finset.mem_Icc.mp hid
        exact List.mem_toFinset.mpr (hall id this.1 this.2)
      rwa [Nat.card_Icc, Nat.add_sub_cancel] at hle
    rw [List.card_toFinset] at hcard
    have heq : ids.dedup = ids := (List.dedup_sublist ids).eq_of_length_le (by omega)
    rw [← heq]
    exact List.nodup_dedup ids
  · intro hnodup id h1 h2
    have heq : ids.toFinset = Finset.Icc 1 N := by
      refine Finset.eq_of_subset_of_card_le hsub ?_
      rw [Nat.card_Icc, Nat.add_sub_cancel, List.toFinset_card_of_nodup hnodup, hlen]
    rw [← List.mem_toFinset, heq]
    exact Finset.mem_Icc.mpr ⟨h1, h2⟩

theorem answered_length_le (hes : ∀ e ∈ es, SetupMsg N e.2) (hnodup : (answered es).Nodup) :
    (answered es).length ≤ N := by
  have hsub : answered es ⊆ List.range' 1 N := fun id hid => by
    have := answered_mem hes hid
    exact List.mem_range'_1.mpr (by omega)
  simpa using (hnodup.subperm hsub).length_le

/-- The latch is counted down by the `N`-th answer. -/
theorem Setup.latch_lt_iff (h : Setup N N c) (hN : 1 ≤ N) (hes : ∀ e ∈ es, SetupMsg N e.2)
    (hcounter : d.receiving.AllSteps NoUnderflow c es) (hrun : d.receiving.run c es = some t) :
    t.leaderElectionLatch < c.leaderElectionLatch ↔ (answered es).length = N := by
  obtain ⟨-, k, hk, hfinal⟩ := h.run hes hcounter hrun
  rw [h.latch, if_neg (by omega), hfinal.latch]
  split_ifs with hzero
  · exact iff_of_true Nat.zero_lt_one (by omega)
  · exact iff_of_false (Nat.lt_irrefl 1) (by omega)

/-- **The exact condition for the preload phase to wait for every proposal**: fewer than `N` answers are
heard, or none of them is repeated. -/
theorem preloadWaits_iff (build : Build) (initialConfig : List ℕ) (numProposals numConcurrentProposals : ℕ)
    (nodes : List ℕ) (reconfig : Option (ReconfigurationPolicy × List ℕ)) (hN : 1 ≤ N) (hes : ∀ e ∈ es, SetupMsg N e.2) :
    PreloadWaits N (.new build initialConfig numProposals numConcurrentProposals nodes reconfig N) es ↔
      (answered (heard es)).length < N ∨ (answered (heard es)).Nodup := by
  have hsetup : Setup N N
      (.new build initialConfig numProposals numConcurrentProposals nodes reconfig N) :=
    ⟨rfl, rfl, rfl, rfl, by rw [if_neg (by omega)]; rfl⟩
  generalize ReconfigurationClient.new build initialConfig numProposals numConcurrentProposals nodes reconfig N = c
    at hsetup ⊢
  have hheard : ∀ e ∈ heard es, SetupMsg N e.2 := fun e he => hes e (List.takeWhile_sublist _ |>.subset he)
  have hlatch : c.receiving.AllSteps NoUnderflow c es → ∀ pre t, pre <+: es → c.receiving.run c pre = some t →
      (t.leaderElectionLatch < c.leaderElectionLatch ↔ (answered pre).length = N) := fun hcounter pre t hpre hrun =>
    hsetup.latch_lt_iff hN (fun e he => hes e (hpre.subset he)) (hcounter.of_prefix hpre) hrun
  constructor
  · rintro ⟨hcounter, hall⟩
    have hle := (hsetup.allSteps_iff hes).mp hcounter
    by_cases hlt : (answered (heard es)).length < N
    · exact Or.inl hlt
    · right
      have hlen : (answered (heard es)).length = N := by omega
      have hnames : ∀ e ∈ heard es, namesLeader e.2 = true := fun e he =>
        List.mem_takeWhile_imp (p := fun e : TimedMsg => namesLeader e.2) he
      obtain ⟨t, ht⟩ := hsetup.exists_run (d := c) hheard hnames hle
      have hprefix : heard es <+: es := List.takeWhile_prefix _
      exact (all_answered_iff (fun id hid => answered_mem hheard hid) hlen).mp
        (hall _ t hprefix ht ((hlatch hcounter _ t hprefix ht).mpr hlen))
  · intro hcond
    have hle : (answered (heard es)).length ≤ N := by
      rcases hcond with hlt | hnodup
      · exact hlt.le
      · exact answered_length_le hheard hnodup
    have hcounter : c.receiving.AllSteps NoUnderflow c es := (hsetup.allSteps_iff hes).mpr hle
    refine ⟨hcounter, fun pre t hpre hrun hlt => ?_⟩
    have hlen := (hlatch hcounter pre t hpre hrun).mp hlt
    obtain ⟨hnames, -⟩ := hsetup.run (fun e he => hes e (hpre.subset he)) (hcounter.of_prefix hpre) hrun
    obtain ⟨rest, rfl⟩ := hpre
    have hsplit : heard (pre ++ rest) = pre ++ heard rest := List.takeWhile_append_of_pos hnames
    have happend : answered (pre ++ heard rest) = answered pre ++ answered (heard rest) :=
      List.filterMap_append
    rw [hsplit, happend] at hcond hle
    rw [List.length_append] at hcond hle
    refine (all_answered_iff (fun id hid => answered_mem (fun e he => hes e (by simp [he])) hid) hlen).mpr ?_
    rcases hcond with hlt | hnodup
    · omega
    · exact hnodup.of_append_left

/-- Two proposals, both answered. -/
theorem bothAnswered_preloadWaits :
    (∀ e ∈ [(0, AtomicBroadcastMsg.leader 1 1), (1, .proposalResp (createRawProposal 2) 1 1),
        (2, .proposalResp (createRawProposal 1) 1 1)], SetupMsg 2 e.2) ∧
      PreloadWaits 2 (.new .release [1] 2 1 [1] none 2)
        [(0, .leader 1 1), (1, .proposalResp (createRawProposal 2) 1 1),
          (2, .proposalResp (createRawProposal 1) 1 1)] := by
  have hes : ∀ e ∈ [(0, AtomicBroadcastMsg.leader 1 1), (1, .proposalResp (createRawProposal 2) 1 1),
      (2, .proposalResp (createRawProposal 1) 1 1)], SetupMsg 2 e.2 := by
    simp only [List.mem_cons, List.not_mem_nil, or_false, forall_eq_or_imp, forall_eq, SetupMsg, true_and]
    exact ⟨⟨2, by decide, by decide, by decide⟩, ⟨1, by decide, by decide, by decide⟩⟩
  exact ⟨hes, (preloadWaits_iff .release [1] 2 1 [1] none (by decide) hes).mpr (Or.inr (by decide))⟩

/-- The first of two proposals is answered twice: the latch is counted down, although the second one has
not been answered. The answer to that underflows the counter: it wraps around, or is a panic in a debug
build. -/
theorem answered_twice_counts_twice :
    (∀ e ∈ [(0, AtomicBroadcastMsg.proposalResp (createRawProposal 1) 1 1),
        (1, .proposalResp (createRawProposal 1) 1 1)], SetupMsg 2 e.2) ∧
      ¬ PreloadWaits 2 (.new .release [1] 2 1 [1] none 2)
        [(0, .proposalResp (createRawProposal 1) 1 1), (1, .proposalResp (createRawProposal 1) 1 1)] := by
  constructor
  · simp only [List.mem_cons, List.not_mem_nil, or_false, forall_eq_or_imp, forall_eq, SetupMsg]
    exact ⟨⟨1, by decide, by decide, by decide⟩, ⟨1, by decide, by decide, by decide⟩⟩
  · intro h
    have hanswered := h.latch _ _ List.prefix_rfl rfl (by decide) 2 (by decide) (by decide)
    revert hanswered
    decide

end OmniPaxosBench.Experiment.ReconfigurationClient
