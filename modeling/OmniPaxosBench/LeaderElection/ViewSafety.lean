import OmniPaxosBench.LeaderElection.ViewInvariant

/-! # View-change leader election: safety

`election_safe` holds in every reachable state, but for what it says of the order of the views, which
takes that no view number reaches `2 ^ 32 - 1`. The numbers are `u32`s that wrap around, and
`number_decreases` is a run that shows it: in each view the node that was to lead the view before
follows a leader that does not answer, and enters the next view (`Stalled.round`). -/

namespace OmniPaxosBench.LeaderElection

open OmniPaxosBench.Lib VRLeaderElectionComp

namespace ViewElection

/-- **Safety of the view-change election.** The view number of a node is that of its ballot, and never
decreases from below `2 ^ 32 - 1`; an indicated leader is the node of its view, so no two nodes are
indicated for one view number; the panics of `newHbRound` are not reached. In a run in which no view
number reaches `2 ^ 32 - 1`, the views a node indicates increase, a majority is in the view of an
indication or a higher one, all but the leader have asked for it, and each had seen a majority in
it. -/
theorem election_safe {S : Views} {s : ViewElection} (h : (machine S).Reachable s) :
    (∀ i ∈ S.views, (s.node i).viewNumber = (s.node i).viewchangeStatus.ballot.n ∧
      ∀ x t, (s.node i).viewNumber < 2 ^ 32 - 1 → s.step S x = some t →
        (s.node i).viewNumber ≤ (t.node i).viewNumber) ∧
    (∀ i ∈ S.views, (∀ l ∈ s.indications i, l.pid = i ∧ l.round.pid = i ∧
        i = S.views.getD (l.round.n % S.views.length) 0) ∧
      ∀ j ∈ S.views, ∀ l ∈ s.indications i, ∀ l' ∈ s.indications j, l.round.n = l'.round.n → i = j) ∧
    (∀ i ∈ S.views, ∀ e, (s.node i).handle e ≠ some (.error .noElectedLeader) ∧
      (s.node i).handle e ≠ some (.error .leaderNotInViews)) ∧
    ((machine S).ReachableUnder (Small S) s →
      (∀ i ∈ S.views, ((s.indications i).map (·.round.n)).Pairwise (· < ·)) ∧
      ∀ i ∈ S.views, ∀ l ∈ s.indications i, ∃ Q : List ℕ, Q.Nodup ∧ S.views.length / 2 + 1 ≤ Q.length ∧
        i ∈ Q ∧ (∀ m ∈ Q, m ∈ S.views ∧ l.round.n ≤ (s.node m).viewNumber) ∧
        ∀ m ∈ Q, m ≠ i → ∃ a ∈ s.asked, a.pid = m ∧ a.ballot = l.round ∧
          Together s m l.round a.seen ∧ S.views.length / 2 + 1 ≤ a.seen.length) := by
  have hplaced := placed_of_reachable h
  have hpos : ∀ i ∈ S.views, ∀ l ∈ s.indications i, l.pid = i ∧ l.round.pid = i ∧
      i = S.views.getD (l.round.n % S.views.length) 0 := by
    intro i hi l hl
    obtain ⟨hpid, hround, hvalid⟩ := (hplaced.node i hi).indicated l hl
    exact ⟨hpid, hround, hround.symm.trans hvalid⟩
  refine ⟨fun i hi => ⟨(hplaced.node i hi).number, ?_⟩, fun i hi => ⟨hpos i hi, ?_⟩, ?_, ?_⟩
  · intro x t hsmall hstep
    exact number_le_step hplaced hi hsmall hstep
  · intro j hj l hl l' hl' heq
    have hi' := (hpos i hi l hl).2.2
    have hj' := (hpos j hj l' hl').2.2
    rw [hi', hj', heq]
  · intro i hi e
    exact ⟨no_panic hplaced hi (Or.inl rfl), no_panic hplaced hi (Or.inr rfl)⟩
  · intro hsmall
    have hinv := inv_of_reachable hsmall
    exact ⟨fun i hi => (hinv.node i hi).sorted, fun i hi l hl => quorum_of_won hinv hi hl⟩

/-- Three nodes. -/
def three : Views := ⟨[1, 2, 3], by decide, by decide⟩

/-- All nodes enter view 1; node 1 hears of node 3 and asks node 2, which hears of node 1, to lead. -/
def firstView : List (ℕ × VREvent) :=
  [(1, .start), (2, .start), (3, .start), (1, .vr (.startViewChange ⟨1, 2⟩ 3)),
    (2, .vr (.startViewChange ⟨1, 2⟩ 1)), (2, .vr (.doViewChange ⟨1, 2⟩ 1))]

theorem firstView_safe : ∃ s, (machine three).ReachableUnder (Small three) s ∧
    s.indications 2 = [⟨2, ⟨1, 2⟩⟩] ∧
    ∃ Q : List ℕ, Q.Nodup ∧ 2 ≤ Q.length ∧ ∀ m ∈ Q, m ∈ three.views ∧ 1 ≤ (s.node m).viewNumber := by
  obtain ⟨s, hrun, hind⟩ : ∃ s, (machine three).run (machine three).init firstView = some s ∧
      s.indications 2 = [⟨2, ⟨1, 2⟩⟩] := ⟨_, rfl, by decide⟩
  have hsmall : (machine three).AllSteps (Small three) (machine three).init firstView := by decide
  have hr := Machine.ReachableUnder.init.run hsmall hrun
  have hl : (⟨2, ⟨1, 2⟩⟩ : Leader) ∈ s.indications 2 := by rw [hind]; exact List.mem_singleton.mpr rfl
  obtain ⟨Q, hnodup, hlen, -, hin, -⟩ :=
    ((election_safe hr.reachable).2.2.2 hr).2 2 (by decide) _ hl
  exact ⟨s, hr, hind, Q, hnodup, hlen, hin⟩

/-! ### View numbers wrap around -/

section Node

variable {c : VRLeaderElectionComp} {b : Ballot} {sender : ℕ}

/-- A follower whose leader has not answered enters the next view. -/
theorem handle_timeout {id : ℕ} {T : Timers Ballot} (hs : c.viewchangeStatus = .elected b)
    (ha : c.leaderIsAlive = false) (hf : c.timers.fire id = some (b, T)) :
    c.handle (.timeout id) = some (.ok
      ({ c with
        timers := T
        viewNumber := c.nextBallot.n
        viewchangeStatus := .viewChange c.nextBallot 1 }, c.startViewChange c.nextBallot)) := by
  unfold VRLeaderElectionComp.handle
  dsimp only
  rw [hf, Option.map_some]
  unfold hbTimeout
  dsimp only
  rw [hs]
  dsimp only
  rw [if_pos rfl, ha]
  rfl

/-- A node that sees a second one of three in its view follows the leader of the view. -/
theorem handle_second (hconn : sender ∉ c.disconnectedPeers) (hs : c.viewchangeStatus = .viewChange b 1)
    (hmaj : c.majority = 2) (hother : b.pid ≠ c.pid) (hmem : b.pid ∈ c.views) :
    ∃ c' out, c.handle (.vr (.startViewChange b sender)) = some (.ok (c', out)) ∧ Frame c c' ∧
      c'.disconnectedPeers = c.disconnectedPeers ∧ c'.viewNumber = c.viewNumber ∧
      c'.viewchangeStatus = .elected b ∧ c'.leaderIsAlive = false ∧
      ∃ id T, c'.timers.fire id = some (b, T) := by
  have hfind : (c.views.find? fun x => x = b.pid) = some b.pid := find_pid_of_mem hmem
  obtain ⟨t, T, hstop⟩ := stopTimer_eq { c with viewchangeStatus := .elected b }
  obtain ⟨T', hfire⟩ := T.fire_schedule b
  obtain ⟨c', out, hround, hc'⟩ : ∃ c' out,
      newHbRound { c with viewchangeStatus := .elected b, timer := t, timers := T } = .ok (c', out) ∧
        Frame c c' ∧ c'.disconnectedPeers = c.disconnectedPeers ∧ c'.viewNumber = c.viewNumber ∧
        c'.viewchangeStatus = .elected b ∧ c'.leaderIsAlive = false ∧ c'.timers = T.schedule b := by
    unfold newHbRound
    dsimp only
    rw [hfind]
    exact ⟨_, _, rfl, ⟨rfl, rfl, rfl⟩, rfl, rfl, rfl, rfl, rfl⟩
  obtain ⟨hframe, hdis, hnum, hst, ha, htimers⟩ := hc'
  refine ⟨c', .vr b.pid (.doViewChange b c'.pid) :: out, ?_, hframe, hdis, hnum, hst, ha, T.next, T', ?_⟩
  · show some (c.handleStartViewChange b sender) = _
    unfold handleStartViewChange
    rw [if_neg hconn, hs]
    dsimp only
    rw [if_neg (lt_irrefl _), if_pos rfl, if_pos hmaj.symm, if_neg hother, hfind]
    dsimp only
    rw [hstop, hround]
    rfl
  · rw [htimers]
    exact hfire

end Node

variable {s : ViewElection} {i v w : ℕ} {e : VREvent} {c : VRLeaderElectionComp} {out : List VROut}

theorem step_of_handle {S : Views} (hi : i ∈ S.views) (hin : s.Input S i e)
    (h : (s.node i).handle e = some (.ok (c, out))) : s.step S (i, e) = some (s.set i e c out) := by
  show (if i ∈ S.views ∧ s.Input S i e then _ else _) = _
  rw [if_pos ⟨hi, hin⟩, h]

theorem reachable_handle (hr : (machine three).Reachable s) (hi : i ∈ three.views)
    (hin : s.Input three i e) (h : (s.node i).handle e = some (.ok (c, out))) :
    (machine three).Reachable (s.set i e c out) :=
  hr.step (e := (i, e)) (step_of_handle hi hin h)

/-- The node of view `v`. -/
def lead (v : ℕ) : ℕ := [1, 2, 3].getD (v % 3) 0

/-- Node `i` of the three is up, has no disconnected peers, and is in a view up to `v`. -/
structure Up (v i : ℕ) (c : VRLeaderElectionComp) : Prop where
  pid : c.pid = i
  views : c.views = [1, 2, 3]
  majority : c.majority = 2
  connected : c.disconnectedPeers = []
  ballot : c.viewchangeStatus.ballot.n ≤ v

/-- The nodes are up to view `v`, and the node of the view before follows a leader that does not
answer. -/
structure Stalled (v : ℕ) (s : ViewElection) : Prop where
  started : ∀ i ∈ [1, 2, 3], s.started i = true
  up : ∀ i ∈ [1, 2, 3], Up v i (s.node i)
  number : (s.node (lead (v + 2))).viewNumber = v
  elected : (s.node (lead (v + 2))).viewchangeStatus = .elected ⟨v, lead v⟩
  dead : (s.node (lead (v + 2))).leaderIsAlive = false
  timer : ∃ id T, (s.node (lead (v + 2))).timers.fire id = some (⟨v, lead v⟩, T)

theorem started_set (h : ∀ i ∈ [1, 2, 3], s.started i = true) (j : ℕ) :
    ∀ i ∈ [1, 2, 3], (s.set j e c out).started i = true := by
  intro i hi
  by_cases hij : i = j
  · subst hij; exact started_set_self
  · rw [started_set_of_ne hij]; exact h i hi

theorem up_set (h : ∀ i ∈ [1, 2, 3], Up v i (s.node i)) (hvw : v ≤ w) {j : ℕ} (hc : Up w j c) :
    ∀ i ∈ [1, 2, 3], Up w i ((s.set j e c out).node i) := by
  intro i hi
  by_cases hij : i = j
  · subst hij; rw [node_set_self]; exact hc
  · rw [node_set_of_ne hij]
    obtain ⟨h1, h2, h3, h4, h5⟩ := h i hi
    exact ⟨h1, h2, h3, h4, h5.trans hvw⟩

/-- Three views in a row have different nodes, and all nodes. -/
theorem lead_three (v : ℕ) : (lead v ∈ [1, 2, 3] ∧ lead (v + 1) ∈ [1, 2, 3] ∧ lead (v + 2) ∈ [1, 2, 3]) ∧
    lead v ≠ lead (v + 1) ∧ lead v ≠ lead (v + 2) ∧ lead (v + 1) ≠ lead (v + 2) := by
  unfold lead
  have hv : v % 3 = 0 ∨ v % 3 = 1 ∨ v % 3 = 2 := by omega
  rcases hv with h | h | h
  · have h1 : (v + 1) % 3 = 1 := by omega
    have h2 : (v + 2) % 3 = 2 := by omega
    rw [h, h1, h2]; decide
  · have h1 : (v + 1) % 3 = 2 := by omega
    have h2 : (v + 2) % 3 = 0 := by omega
    rw [h, h1, h2]; decide
  · have h1 : (v + 1) % 3 = 0 := by omega
    have h2 : (v + 2) % 3 = 1 := by omega
    rw [h, h1, h2]; decide

theorem lead_add_three (v : ℕ) : lead (v + 3) = lead v := by
  unfold lead
  rw [Nat.add_mod_right]

/-- The announcement of a view reaches every other node. -/
theorem mem_announced {b : Ballot} {j : ℕ} (hviews : c.views = [1, 2, 3]) (hpid : c.pid = i)
    (hj : j ∈ [1, 2, 3]) (hji : j ≠ i) :
    (j, .startViewChange b i) ∈ messagesOf (c.startViewChange b) := by
  rw [(startViewChange_outputs c b []).1, hviews, hpid]
  exact List.mem_map.mpr ⟨j, List.mem_filter.mpr ⟨hj, decide_eq_true hji⟩, rfl⟩


/-- The node that does not hear from its leader enters the next view. -/
theorem Stalled.timeout (h : Stalled v s) : ∃ id T, s.step three (lead (v + 2), .timeout id) =
    some (s.set (lead (v + 2)) (.timeout id)
      { s.node (lead (v + 2)) with
        timers := T
        viewNumber := (v + 1) % 2 ^ 32
        viewchangeStatus := .viewChange ⟨(v + 1) % 2 ^ 32, lead ((v + 1) % 2 ^ 32)⟩ 1 }
      ((s.node (lead (v + 2))).startViewChange ⟨(v + 1) % 2 ^ 32, lead ((v + 1) % 2 ^ 32)⟩)) := by
  obtain ⟨id, T, hfire⟩ := h.timer
  have hm := (lead_three v).1.2.2
  have hnext : (s.node (lead (v + 2))).nextBallot = ⟨(v + 1) % 2 ^ 32, lead ((v + 1) % 2 ^ 32)⟩ := by
    unfold nextBallot
    rw [(h.up _ hm).views, h.number]
    rfl
  have hhandle := handle_timeout h.elected h.dead hfire
  rw [hnext] at hhandle
  exact ⟨id, T, step_of_handle hm (h.started _ hm) hhandle⟩

/-- A node joins the view of `b`, which it hears of for the first time. -/
theorem reachable_join {b : Ballot} {k : ℕ} (hr : (machine three).Reachable s)
    (hup : Up v i (s.node i)) (hst : s.started i = true) (hi : i ∈ [1, 2, 3])
    (hmsg : (i, .startViewChange b k) ∈ s.flight) (hlt : (s.node i).viewchangeStatus.ballot.n < b.n) :
    (machine three).Reachable (s.set i (.vr (.startViewChange b k)) ((s.node i).adopt b).1
      ((s.node i).startViewChange b)) := by
  have hconn : k ∉ (s.node i).disconnectedPeers := by rw [hup.connected]; exact List.not_mem_nil
  exact reachable_handle hr hi ⟨hst, hmsg⟩ (handle_higher hconn hlt)

theorem Up.adopt {b : Ballot} (h : Up v i c) : Up b.n i (c.adopt b).1 :=
  ⟨h.pid, h.views, h.majority, h.connected, le_rfl⟩

/-- One view: the follower `m` enters the next one, the old leader `l` and the next one `f` join it,
and then `l` follows `f`. -/
theorem Stalled.round (h : Stalled v s) (hv : v + 1 < 2 ^ 32) (hr : (machine three).Reachable s) :
    ∃ t, (machine three).Reachable t ∧ Stalled (v + 1) t := by
  obtain ⟨⟨hl, hf, hm⟩, hlf, hlm, hfm⟩ := lead_three v
  obtain ⟨id, T, h₁⟩ := h.timeout
  rw [Nat.mod_eq_of_lt hv] at h₁
  set b : Ballot := ⟨v + 1, lead (v + 1)⟩ with hb
  set m := lead (v + 2)
  set l := lead v
  set f := lead (v + 1)
  have hlow : ∀ i ∈ [1, 2, 3], (s.node i).viewchangeStatus.ballot.n < b.n := fun i hi => by
    have := (h.up i hi).ballot
    show _ < v + 1
    omega
  -- `m` announces the view
  set s₁ := s.set m (.timeout id) _ ((s.node m).startViewChange b) with hs₁
  have hr₁ : (machine three).Reachable s₁ := hr.step (e := (m, .timeout id)) h₁
  have hup₁ : ∀ i ∈ [1, 2, 3], Up (v + 1) i (s₁.node i) := by
    obtain ⟨h1, h2, h3, h4, -⟩ := h.up m hm
    exact up_set h.up (Nat.le_succ v) ⟨h1, h2, h3, h4, le_rfl⟩
  have hst₁ : ∀ i ∈ [1, 2, 3], s₁.started i = true := started_set h.started m
  have hsent : ∀ j ∈ [1, 2, 3], j ≠ m → (j, .startViewChange b m) ∈ s₁.flight := fun j hj hjm =>
    List.mem_append_right _ (mem_announced (h.up m hm).views (h.up m hm).pid hj hjm)
  -- `l` joins
  have hl₁ : s₁.node l = s.node l := node_set_of_ne hlm
  have hr₂ := reachable_join hr₁ (hup₁ l hl) (hst₁ l hl) hl (hsent l hl hlm) (hl₁ ▸ hlow l hl)
  set s₂ := s₁.set l (.vr (.startViewChange b m)) _ ((s₁.node l).startViewChange b) with hs₂
  have hup₂ : ∀ i ∈ [1, 2, 3], Up (v + 1) i (s₂.node i) := up_set hup₁ le_rfl (Up.adopt (b := b) (hup₁ l hl))
  have hst₂ : ∀ i ∈ [1, 2, 3], s₂.started i = true := started_set hst₁ l
  have hflight₂ : (f, .startViewChange b m) ∈ s₂.flight := by
    refine List.mem_append_left _ ?_
    show _ ∈ s₁.flight.erase _
    rw [List.mem_erase_of_ne (fun heq => hlf (congrArg Prod.fst heq).symm)]
    exact hsent f hf hfm
  -- `f` joins
  have hf₂ : s₂.node f = s.node f := (node_set_of_ne hlf.symm).trans (node_set_of_ne hfm)
  have hr₃ := reachable_join hr₂ (hup₂ f hf) (hst₂ f hf) hf hflight₂ (hf₂ ▸ hlow f hf)
  set s₃ := s₂.set f (.vr (.startViewChange b m)) _ ((s₂.node f).startViewChange b) with hs₃
  have hup₃ : ∀ i ∈ [1, 2, 3], Up (v + 1) i (s₃.node i) := up_set hup₂ le_rfl (Up.adopt (b := b) (hup₂ f hf))
  have hst₃ : ∀ i ∈ [1, 2, 3], s₃.started i = true := started_set hst₂ f
  have hflight₃ : (l, .startViewChange b f) ∈ s₃.flight :=
    List.mem_append_right _ (mem_announced (hup₂ f hf).views (hup₂ f hf).pid hl hlf)
  -- `l` hears of `f`, its second node in the view
  have hl₃ : s₃.node l = ((s₁.node l).adopt b).1 := (node_set_of_ne hlf).trans node_set_self
  have hupl := hup₃ l hl
  have hconn : f ∉ (s₃.node l).disconnectedPeers := by rw [hupl.connected]; exact List.not_mem_nil
  obtain ⟨c, out, hc, hframe, hdis, hnum, hstat, hdead, htimer⟩ :=
    handle_second hconn (by rw [hl₃]; rfl) hupl.majority (by rw [hupl.pid]; exact hlf.symm)
      (by rw [hupl.views]; exact hf)
  have hupc : Up (v + 1) l c := by
    refine ⟨hframe.pid.trans hupl.pid, hframe.views.trans hupl.views,
      hframe.majority.trans hupl.majority, hdis.trans hupl.connected, ?_⟩
    rw [hstat]; exact le_rfl
  have hin : s₃.Input three l (.vr (.startViewChange b f)) := ⟨hst₃ l hl, hflight₃⟩
  refine ⟨_, reachable_handle hr₃ hl hin hc, ?_⟩
  have hlead : lead (v + 1 + 2) = l := lead_add_three v
  refine ⟨started_set hst₃ l, up_set hup₃ le_rfl hupc, ?_, ?_, ?_, ?_⟩
  all_goals rw [hlead, node_set_self]
  · rw [hnum, hl₃]; rfl
  · exact hstat
  · exact hdead
  · exact htimer

/-- All nodes enter view 1, and node 1 follows node 2. -/
def secondNode : List (ℕ × VREvent) := firstView.take 4

theorem stalled_one : ∃ s, (machine three).Reachable s ∧ Stalled 1 s := by
  obtain ⟨s, hrun, hst⟩ : ∃ s, (machine three).run (machine three).init secondNode = some s ∧
      Stalled 1 s := by
    refine ⟨_, rfl, ?_, ?_, rfl, rfl, rfl, 0, _, rfl⟩
    · decide
    · intro i hi
      have hi' : i = 1 ∨ i = 2 ∨ i = 3 := by simpa using hi
      rcases hi' with rfl | rfl | rfl
      all_goals exact ⟨rfl, rfl, rfl, rfl, by decide⟩
  exact ⟨s, Machine.reachable_of_run hrun, hst⟩

theorem stalled_all (v : ℕ) (hv : v + 1 < 2 ^ 32) :
    ∃ s, (machine three).Reachable s ∧ Stalled (v + 1) s := by
  induction v with
  | zero => exact stalled_one
  | succ v ih =>
    obtain ⟨s, hr, hs⟩ := ih (by omega)
    exact hs.round hv hr

/-- After the view `2 ^ 32 - 1` a node is back in view 0. -/
theorem number_decreases : ∃ s x t i, (machine three).Reachable s ∧ i ∈ three.views ∧
    s.step three x = some t ∧ (t.node i).viewNumber < (s.node i).viewNumber := by
  obtain ⟨s, hr, hs⟩ := stalled_all (2 ^ 32 - 2) (by decide)
  obtain ⟨id, T, hstep⟩ := hs.timeout
  refine ⟨s, _, _, lead (2 ^ 32 - 2 + 1 + 2), hr, (lead_three (2 ^ 32 - 2 + 1)).1.2.2, hstep, ?_⟩
  rw [node_set_self, hs.number]
  show (2 ^ 32 - 2 + 1 + 1) % 2 ^ 32 < 2 ^ 32 - 2 + 1
  decide

end ViewElection

end OmniPaxosBench.LeaderElection
