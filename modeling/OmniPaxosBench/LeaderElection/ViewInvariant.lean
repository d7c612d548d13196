import OmniPaxosBench.LeaderElection.ViewElection

/-! # View-change leader election: the invariant

`NodeInv.other`, `NodeInv.self`, `RecordInv.step` and `FlightInv.step` say what a step must show for
each part of `Inv`; one lemma for each effect of `Move` shows it, and `inv_of_reachable` puts them
together. The view numbers must be below `2 ^ 32 - 1`: a node that enters the view after that one is
back in view 0. What does not depend on this is `Placed`, which holds in every reachable state. -/

namespace OmniPaxosBench.LeaderElection

open OmniPaxosBench.Lib VRLeaderElectionComp

namespace ViewElection

variable {S : Views} {s : ViewElection} {i j : ℕ} {e : VREvent} {c : VRLeaderElectionComp}
  {out : List VROut} {b : Ballot} {Q : List ℕ}

/-- The other nodes are not affected. -/
theorem NodeInv.other (h : NodeInv S s j) (hj : j ≠ i) : NodeInv S (s.set i e c out) j := by
  refine ⟨?_, ?_, ?_, ?_, ?_, ?_, ?_, ?_, ?_, ?_⟩
  · rw [node_set_of_ne hj]; exact h.pid
  · rw [node_set_of_ne hj]; exact h.views
  · rw [node_set_of_ne hj]; exact h.majority
  · rw [node_set_of_ne hj]; exact h.number
  · rw [node_set_of_ne hj, started_set_of_ne hj]; exact h.fresh
  · rw [node_set_of_ne hj, started_set_of_ne hj]; exact h.valid
  · rw [node_set_of_ne hj, seen_set_of_ne hj]
    intro b k hs
    exact ⟨(h.seen b k hs).1.set, (h.seen b k hs).2⟩
  · rw [node_set_of_ne hj, votes_set_of_ne hj]
    intro b k hs
    obtain ⟨h1, h2, h3⟩ := h.votes b k hs
    exact ⟨h1, h2.set, h3⟩
  · rw [node_set_of_ne hj, indications_set_of_ne hj]
    intro l hl
    obtain ⟨h1, h2, h3, h4, h5, Q, hQ, hlen⟩ := h.won l hl
    exact ⟨h1, h2, h3, h4, h5, Q, hQ.set, hlen⟩
  · rw [indications_set_of_ne hj]; exact h.sorted

/-- What one step of node `i` has in common in all its cases: constants, a view number that does not
decrease, an elected status that stays while the view does. -/
structure Steady (S : Views) (s : ViewElection) (i : ℕ) (c : VRLeaderElectionComp) : Prop where
  frame : Frame (s.node i) c
  number : c.viewNumber = c.viewchangeStatus.ballot.n
  valid : Valid S c.viewchangeStatus.ballot
  le : (s.node i).viewNumber ≤ c.viewNumber
  keep : ∀ b, (s.node i).viewchangeStatus = .elected b → c.viewNumber = (s.node i).viewNumber →
    c.viewchangeStatus = .elected b

theorem NodeInv.self (h : NodeInv S s i) (hc : Steady S s i c)
    (hseen : ∀ b k, c.viewchangeStatus = .viewChange b k →
      Together (s.set i e c out) i b (s.seenAfter i e c) ∧ (s.seenAfter i e c).length = k)
    (hvotes : ∀ b k, c.viewchangeStatus = .candidate b k →
      b.pid = i ∧ Backed (s.set i e c out) i b (s.votesAfter i e c) ∧ (s.votesAfter i e c).length = k)
    (hwon : indicationsOf out = [] ∨ ∃ b Q, indicationsOf out = [⟨i, b⟩] ∧ b.pid = i ∧
      c.viewchangeStatus = .elected b ∧ (∀ b', (s.node i).viewchangeStatus ≠ .elected b') ∧
      c.viewNumber = (s.node i).viewNumber ∧ Backed (s.set i e c out) i b Q ∧
      S.views.length / 2 + 1 ≤ Q.length) : NodeInv S (s.set i e c out) i := by
  have hold : ∀ l ∈ s.indications i, l.pid = i ∧ l.round.pid = i ∧ Valid S l.round ∧
      l.round.n ≤ c.viewNumber ∧ (l.round.n = c.viewNumber → c.viewchangeStatus = .elected l.round) ∧
      ∃ Q, Backed (s.set i e c out) i l.round Q ∧ S.views.length / 2 + 1 ≤ Q.length := by
    intro l hl
    obtain ⟨h1, h2, h3, h4, h5, Q, hQ, hlen⟩ := h.won l hl
    refine ⟨h1, h2, h3, h4.trans hc.le, fun heq => ?_, Q, hQ.set, hlen⟩
    have hsame : c.viewNumber = (s.node i).viewNumber := by have := hc.le; omega
    exact hc.keep _ (h5 (by omega)) hsame
  refine ⟨?_, ?_, ?_, ?_, ?_, ?_, ?_, ?_, ?_, ?_⟩
  · rw [node_set_self]; exact hc.frame.pid.trans h.pid
  · rw [node_set_self]; exact hc.frame.views.trans h.views
  · rw [node_set_self]; exact hc.frame.majority.trans h.majority
  · rw [node_set_self]; exact hc.number
  · rw [started_set_self]; intro hf; cases hf
  · rw [node_set_self]; exact fun _ => hc.valid
  · rw [node_set_self, seen_set_self]; exact hseen
  · rw [node_set_self, votes_set_self]; exact hvotes
  · rw [node_set_self, indications_set_self]
    intro l hl
    rcases List.mem_append.mp hl with hl | hl
    · exact hold l hl
    · rcases hwon with hnil | ⟨b, Q, hone, hpid, hs, -, hsame, hQ, hlen⟩
      · rw [hnil] at hl; cases hl
      · rw [hone, List.mem_singleton] at hl
        rw [hl]
        have hb : c.viewchangeStatus.ballot = b := by rw [hs]; rfl
        refine ⟨rfl, hpid, hb ▸ hc.valid, ?_, fun _ => hs, Q, hQ, hlen⟩
        rw [hc.number, hb]
  · rw [indications_set_self]
    rcases hwon with hnil | ⟨b, Q, hone, hpid, hs, hne, hsame, -⟩
    · rw [hnil, List.append_nil]; exact h.sorted
    · rw [hone, List.map_append, List.pairwise_append]
      refine ⟨h.sorted, List.pairwise_singleton .., ?_⟩
      intro x hx y hy
      obtain ⟨l, hl, rfl⟩ := List.mem_map.mp hx
      have hy' : y = b.n := by
        rw [List.map_singleton, List.mem_singleton] at hy
        exact hy
      have hb : c.viewNumber = b.n := by rw [hc.number, hs]; rfl
      obtain ⟨-, -, -, hle, hst, -⟩ := h.won l hl
      -- an indication of the same view would have left the node elected
      have hneq : l.round.n ≠ (s.node i).viewNumber := fun heq => hne _ (hst heq)
      omega

theorem RecordInv.step (h : RecordInv S s) (hi : i ∈ S.views) (hc : Steady S s i c)
    (hasked : ∀ a ∈ askedOf out (s.seenAfter i e c), a.pid = i ∧ c.viewchangeStatus = .elected a.ballot ∧
      Together (s.set i e c out) i a.ballot a.seen ∧ S.views.length / 2 + 1 ≤ a.seen.length) :
    RecordInv S (s.set i e c out) := by
  have hle : ∀ k, (s.node k).viewNumber ≤ ((s.set i e c out).node k).viewNumber := by
    intro k
    by_cases hk : k = i
    · subst hk; rw [node_set_self]; exact hc.le
    · rw [node_set_of_ne hk]
  refine ⟨fun k b hmem => ?_, fun a ha => ?_⟩
  · have hcases : (k, b) ∈ s.entered ∨ (k = i ∧ b = c.viewchangeStatus.ballot) := by
      have hmem' : (k, b) ∈ ite (c.viewNumber = (s.node i).viewNumber) s.entered
        (s.entered ++ [(i, c.viewchangeStatus.ballot)]) := hmem
      split_ifs at hmem'
      · exact Or.inl hmem'
      · rcases List.mem_append.mp hmem' with h' | h'
        · exact Or.inl h'
        · cases List.mem_singleton.mp h'
          exact Or.inr ⟨rfl, rfl⟩
    rcases hcases with hold | ⟨rfl, rfl⟩
    · obtain ⟨h1, h2, h3⟩ := h.entered k b hold
      exact ⟨h1, h2, h3.trans (hle k)⟩
    · rw [node_set_self, hc.number]
      exact ⟨hi, hc.valid, le_rfl⟩
  · rcases List.mem_append.mp ha with ha | ha
    · obtain ⟨h1, h2, h3, h4, h5, h6⟩ := h.asked a ha
      refine ⟨h1, h2, h3.trans (hle _), fun heq => ?_, h5.set, h6⟩
      by_cases hk : a.pid = i
      · rw [hk, node_set_self] at heq ⊢
        rw [hk] at h3 h4
        have hsame : c.viewNumber = (s.node i).viewNumber := by have := hc.le; omega
        exact hc.keep _ (h4 (by omega)) hsame
      · rw [node_set_of_ne hk] at heq ⊢
        exact h4 heq
    · obtain ⟨h1, h2, h3, h4⟩ := hasked a ha
      have hb : c.viewchangeStatus.ballot = a.ballot := by rw [h2]; rfl
      rw [h1, node_set_self]
      refine ⟨hi, hb ▸ hc.valid, ?_, fun _ => h2, h3, h4⟩
      rw [hc.number, hb]

theorem FlightInv.step (h : FlightInv s) (hnodup : (messagesOf out).Nodup)
    (hdisj : ∀ x ∈ messagesOf out, x ∉ s.flight)
    (hsvc : ∀ b k, (i, .startViewChange b k) ∈ s.flightAfter i e → i ≠ k →
      ∀ n, c.viewchangeStatus = .viewChange b n → k ∉ s.seenAfter i e c)
    (hdvc : ∀ b k, (i, .doViewChange b k) ∈ s.flightAfter i e → i ≠ k →
      ∀ n, c.viewchangeStatus = .candidate b n → k ∉ s.votesAfter i e c)
    (hsvc' : ∀ j b k, (j, .startViewChange b k) ∈ messagesOf out → k = i ∧ j ≠ i ∧
      (i, b) ∈ (s.set i e c out).entered ∧
      ∀ n, (s.node j).viewchangeStatus = .viewChange b n → i ∉ s.seen j)
    (hdvc' : ∀ j b k, (j, .doViewChange b k) ∈ messagesOf out → k = i ∧ j ≠ i ∧
      (∃ a ∈ (s.set i e c out).asked, a.pid = i ∧ a.ballot = b) ∧
      ∀ n, (s.node j).viewchangeStatus = .candidate b n → i ∉ s.votes j) :
    FlightInv (s.set i e c out) := by
  refine ⟨?_, fun j b k hmem => ?_, fun j b k hmem => ?_⟩
  · show (s.flightAfter i e ++ messagesOf out).Nodup
    refine List.nodup_append.mpr ⟨nodup_flightAfter h.nodup, hnodup, ?_⟩
    intro x hx y hy hxy
    exact hdisj y hy (hxy ▸ mem_flightAfter hx)
  · rcases List.mem_append.mp hmem with hmem | hmem
    · obtain ⟨hne, hent, hseen⟩ := h.startViewChange j b k (mem_flightAfter hmem)
      refine ⟨hne, mem_entered_set hent, ?_⟩
      by_cases hj : j = i
      · subst hj
        rw [node_set_self, seen_set_self]
        exact hsvc b k hmem hne
      · rw [node_set_of_ne hj, seen_set_of_ne hj]
        exact hseen
    · obtain ⟨rfl, hj, hent, hseen⟩ := hsvc' j b k hmem
      refine ⟨hj, hent, ?_⟩
      rw [node_set_of_ne hj, seen_set_of_ne hj]
      exact hseen
  · rcases List.mem_append.mp hmem with hmem | hmem
    · obtain ⟨hne, ⟨a, ha, hrest⟩, hvotes⟩ := h.doViewChange j b k (mem_flightAfter hmem)
      refine ⟨hne, ⟨a, mem_asked_set ha, hrest⟩, ?_⟩
      by_cases hj : j = i
      · subst hj
        rw [node_set_self, votes_set_self]
        exact hdvc b k hmem hne
      · rw [node_set_of_ne hj, votes_set_of_ne hj]
        exact hvotes
    · obtain ⟨rfl, hj, hasked, hvotes⟩ := hdvc' j b k hmem
      refine ⟨hj, hasked, ?_⟩
      rw [node_set_of_ne hj, votes_set_of_ne hj]
      exact hvotes

/-- A step that sends no message of the view change. -/
theorem FlightInv.silent (h : FlightInv s) (hmsgs : messagesOf out = [])
    (hsvc : ∀ b k, (i, .startViewChange b k) ∈ s.flightAfter i e → i ≠ k →
      ∀ n, c.viewchangeStatus = .viewChange b n → k ∉ s.seenAfter i e c)
    (hdvc : ∀ b k, (i, .doViewChange b k) ∈ s.flightAfter i e → i ≠ k →
      ∀ n, c.viewchangeStatus = .candidate b n → k ∉ s.votesAfter i e c) :
    FlightInv (s.set i e c out) := by
  refine h.step ?_ ?_ hsvc hdvc ?_ ?_
  · rw [hmsgs]; exact List.nodup_nil
  · intro x hx
    rw [hmsgs] at hx; cases hx
  · intro j b k hm
    rw [hmsgs] at hm; cases hm
  · intro j b k hm
    rw [hmsgs] at hm; cases hm

/-- The parts of the invariant together. -/
theorem Inv.set (h : Inv S s) (hnode : NodeInv S (s.set i e c out) i)
    (hrecord : RecordInv S (s.set i e c out)) (hflight : FlightInv (s.set i e c out)) :
    Inv S (s.set i e c out) := by
  refine ⟨fun j hj => ?_, hrecord, hflight⟩
  by_cases hji : j = i
  · subst hji; exact hnode
  · exact (h.node j hj).other hji

/-- The pid of a view is one of the nodes. -/
theorem Valid.mem (h : Valid S b) : b.pid ∈ S.views := by
  have hlen : b.n % S.views.length < S.views.length := Nat.mod_lt _ (by have := S.two; omega)
  unfold Valid at h
  rw [h, List.getD_eq_getElem?_getD, List.getElem?_eq_getElem hlen]
  exact List.getElem_mem hlen

/-- A node that has not entered the view of `b` has not been seen in it. -/
theorem not_seen (h : Inv S s) (hj : j ∈ S.views) (hlt : (s.node i).viewNumber < b.n) {n : ℕ}
    (hs : (s.node j).viewchangeStatus = .viewChange b n) : i ∉ s.seen j := by
  intro hmem
  have hent := ((h.node j hj).seen b n hs).1.2.2 i hmem
  have hle := (h.record.entered i b hent).2.2
  omega

/-- A node that is still changing to the view of `b` has not asked for it. -/
theorem not_asked (h : Inv S s) (hi : i ∈ S.views) {k : ℕ}
    (had : (s.node i).viewchangeStatus = .viewChange b k) : ∀ a ∈ s.asked, a.pid = i → a.ballot ≠ b := by
  intro a ha hpid hb
  have hnum : (s.node i).viewNumber = b.n := by rw [(h.node i hi).number, had]; rfl
  obtain ⟨-, -, -, hst, -⟩ := h.record.asked a ha
  rw [hpid, hb, had] at hst
  cases hst hnum.symm

/-- Entering a view. -/
theorem inv_enter (h : Inv S s) (hi : i ∈ S.views) (hframe : Frame (s.node i) c) (hvalid : Valid S b)
    (hlt : (s.node i).viewNumber < b.n) (hnumber : c.viewNumber = b.n)
    (hstatus : c.viewchangeStatus = .viewChange b 1) :
    Inv S (s.set i e c ((s.node i).startViewChange b)) := by
  have hI := h.node i hi
  have hballot : c.viewchangeStatus.ballot = b := by rw [hstatus]; rfl
  have hne : c.viewNumber ≠ (s.node i).viewNumber := by omega
  have hseen : s.seenAfter i e c = [i] := if_pos hne
  obtain ⟨hmsgs, hasked, hind⟩ := startViewChange_outputs (s.node i) b (s.seenAfter i e c)
  rw [hI.pid, hI.views] at hmsgs
  have hent : (i, b) ∈ (s.set i e c ((s.node i).startViewChange b)).entered := by
    show (i, b) ∈ ite _ _ _
    rw [if_neg hne, hballot]
    exact List.mem_append_right _ (List.mem_singleton.mpr rfl)
  have hc : Steady S s i c := by
    refine ⟨hframe, by rw [hballot]; exact hnumber, by rw [hballot]; exact hvalid, by omega, ?_⟩
    intro b' _ heq
    exact absurd heq hne
  have hmem : ∀ j b' k, (j, VRMsg.startViewChange b' k) ∈ messagesOf ((s.node i).startViewChange b) →
      j ∈ S.views ∧ j ≠ i ∧ b' = b ∧ k = i := by
    intro j b' k hm
    rw [hmsgs] at hm
    obtain ⟨peer, hpeer, heq⟩ := List.mem_map.mp hm
    cases heq
    obtain ⟨hin, hother⟩ := List.mem_filter.mp hpeer
    exact ⟨hin, of_decide_eq_true hother, rfl, rfl⟩
  refine h.set (hI.self hc ?_ ?_ (Or.inl hind)) (h.record.step hi hc ?_) (h.flight.step ?_ ?_ ?_ ?_ ?_ ?_)
  · intro b' k hs
    rw [hstatus] at hs
    cases hs
    rw [hseen]
    refine ⟨⟨List.nodup_singleton i, List.mem_singleton.mpr rfl, fun m hm => ?_⟩, rfl⟩
    rw [List.mem_singleton.mp hm]
    exact hent
  · intro b' k hs
    rw [hstatus] at hs; cases hs
  · intro a ha
    rw [hasked] at ha; cases ha
  · rw [hmsgs]
    refine (S.nodup.filter _).map ?_
    intro x y hxy
    exact congrArg Prod.fst hxy
  · intro x hx hflight
    rw [hmsgs] at hx
    obtain ⟨peer, -, rfl⟩ := List.mem_map.mp hx
    -- the announcement would be a second one
    have hle := (h.record.entered i b (h.flight.startViewChange peer b i hflight).2.1).2.2
    omega
  · intro b' k _ hik n _
    rw [hseen, List.mem_singleton]
    exact hik.symm
  · intro b' k _ _ n hs
    rw [hstatus] at hs; cases hs
  · intro j b' k hm
    obtain ⟨hj, hji, rfl, rfl⟩ := hmem j b' k hm
    exact ⟨rfl, hji, hent, fun n hs => not_seen h hj hlt hs⟩
  · intro j b' k hm
    rw [hmsgs] at hm
    obtain ⟨peer, -, heq⟩ := List.mem_map.mp hm
    cases heq

/-- A step within a view, up to what it does with the two lists of the node. -/
theorem steady_within (h : NodeInv S s i) (hframe : Frame (s.node i) c)
    (hvalid : Valid S (s.node i).viewchangeStatus.ballot)
    (hnumber : c.viewNumber = (s.node i).viewNumber)
    (hballot : c.viewchangeStatus.ballot = (s.node i).viewchangeStatus.ballot)
    (hkeep : ∀ b, (s.node i).viewchangeStatus = .elected b → c.viewchangeStatus = .elected b) :
    Steady S s i c := by
  refine ⟨hframe, ?_, by rw [hballot]; exact hvalid, hnumber.ge, fun b hb _ => hkeep b hb⟩
  rw [hnumber, hballot, h.number]

/-- Nothing of interest. -/
theorem inv_quiet (h : Inv S s) (hi : i ∈ S.views) (hstarted : s.started i = true)
    (hframe : Frame (s.node i) c) (hnumber : c.viewNumber = (s.node i).viewNumber)
    (hstatus : c.viewchangeStatus = (s.node i).viewchangeStatus) (houts : ∀ o ∈ out, IsNote o) :
    Inv S (s.set i e c out) := by
  have hI := h.node i hi
  have hseen : s.seenAfter i e c = s.seen i := by
    unfold seenAfter
    rw [if_neg (not_not.mpr hnumber), if_pos hstatus]
  have hvotes : s.votesAfter i e c = s.votes i := if_pos hstatus
  obtain ⟨hmsgs, hasked, hind⟩ := notes_nil houts (s.seenAfter i e c)
  have hc : Steady S s i c := by
    refine steady_within hI hframe (hI.valid hstarted) hnumber (by rw [hstatus]) fun b hb => ?_
    rw [hstatus, hb]
  refine h.set (hI.self hc ?_ ?_ (Or.inl hind)) (h.record.step hi hc ?_) (h.flight.silent hmsgs ?_ ?_)
  · intro b k hs
    rw [hstatus] at hs
    rw [hseen]
    exact ⟨(hI.seen b k hs).1.set, (hI.seen b k hs).2⟩
  · intro b k hs
    rw [hstatus] at hs
    rw [hvotes]
    obtain ⟨h1, h2, h3⟩ := hI.votes b k hs
    exact ⟨h1, h2.set, h3⟩
  · intro a ha
    rw [hasked] at ha; cases ha
  · intro b k hm _ n hs
    rw [hseen]
    exact (h.flight.startViewChange i b k (mem_flightAfter hm)).2.2 n (hstatus ▸ hs)
  · intro b k hm _ n hs
    rw [hvotes]
    exact (h.flight.doViewChange i b k (mem_flightAfter hm)).2.2 n (hstatus ▸ hs)

section Counting

variable {k sender : ℕ}

/-- A node that hears a `StartViewChange` of its own view has not seen the sender there yet. -/
theorem seen_cons (h : Inv S s) (hi : i ∈ S.views) (hm : (i, .startViewChange b sender) ∈ s.flight)
    (had : (s.node i).viewchangeStatus = .viewChange b k) :
    Together s i b (sender :: s.seen i) ∧ (sender :: s.seen i).length = k + 1 := by
  obtain ⟨⟨hnodup, hmem, hall⟩, hlen⟩ := (h.node i hi).seen b k had
  obtain ⟨-, hent, hnew⟩ := h.flight.startViewChange i b sender hm
  refine ⟨⟨List.nodup_cons.mpr ⟨hnew k had, hnodup⟩, List.mem_cons_of_mem _ hmem, fun m hm => ?_⟩, ?_⟩
  · rcases List.mem_cons.mp hm with rfl | hm
    · exact hent
    · exact hall m hm
  · rw [List.length_cons, hlen]

/-- A candidate that hears a `DoViewChange` of its own view has not counted the sender yet. -/
theorem votes_cons (h : Inv S s) (hi : i ∈ S.views) (hm : (i, .doViewChange b sender) ∈ s.flight)
    (had : (s.node i).viewchangeStatus = .candidate b k) :
    b.pid = i ∧ Backed s i b (sender :: s.votes i) ∧ (sender :: s.votes i).length = k + 1 := by
  obtain ⟨hpid, ⟨hnodup, hmem, hall⟩, hlen⟩ := (h.node i hi).votes b k had
  obtain ⟨-, hasked, hnew⟩ := h.flight.doViewChange i b sender hm
  refine ⟨hpid, ⟨List.nodup_cons.mpr ⟨hnew k had, hnodup⟩, List.mem_cons_of_mem _ hmem, ?_⟩, ?_⟩
  · intro m hm hne
    rcases List.mem_cons.mp hm with rfl | hm
    · exact hasked
    · exact hall m hm hne
  · rw [List.length_cons, hlen]

/-- A message still in flight comes from a node that is not yet in the extended list. -/
theorem not_mem_cons_of_rest {m : ℕ → VRMsg} {l : List ℕ} {k : ℕ} (h : s.flight.Nodup)
    (hk : (i, m k) ∈ s.flightAfter i (.vr (m sender))) (hl : k ∉ l) : k ∉ sender :: l := by
  intro hmem
  rcases List.mem_cons.mp hmem with rfl | hmem
  · exact not_mem_flightAfter h _ hk
  · exact hl hmem

theorem seenAfter_heard (hnumber : c.viewNumber = (s.node i).viewNumber)
    (hne : c.viewchangeStatus ≠ (s.node i).viewchangeStatus) :
    s.seenAfter i (.vr (.startViewChange b sender)) c = sender :: s.seen i := by
  unfold seenAfter
  rw [if_neg (not_not.mpr hnumber), if_neg hne]

variable (h : Inv S s) (hi : i ∈ S.views) (hstarted : s.started i = true)
  (hframe : Frame (s.node i) c) (hnumber : c.viewNumber = (s.node i).viewNumber)
include h hi hstarted hframe hnumber

theorem steady_counting
    (hballot : c.viewchangeStatus.ballot = (s.node i).viewchangeStatus.ballot)
    (hne : ∀ b, (s.node i).viewchangeStatus ≠ .elected b) : Steady S s i c := by
  refine steady_within (h.node i hi) hframe ((h.node i hi).valid hstarted) hnumber hballot ?_
  intro b hb
  exact absurd hb (hne b)

/-- A `StartViewChange` is counted. -/
theorem inv_count (hm : (i, .startViewChange b sender) ∈ s.flight)
    (had : (s.node i).viewchangeStatus = .viewChange b k)
    (hstatus : c.viewchangeStatus = .viewChange b (k + 1)) :
    Inv S (s.set i (.vr (.startViewChange b sender)) c []) := by
  have hI := h.node i hi
  have hseen := @seenAfter_heard s i c b sender hnumber (by rw [hstatus, had]; simp)
  have hc := steady_counting h hi hstarted hframe hnumber (by rw [hstatus, had]; rfl) (by simp [had])
  obtain ⟨htogether, hlen⟩ := seen_cons h hi hm had
  refine h.set (hI.self hc ?_ ?_ (Or.inl rfl)) (h.record.step hi hc ?_) (h.flight.silent rfl ?_ ?_)
  · intro b' k' hs
    rw [hstatus] at hs
    cases hs
    rw [hseen]
    exact ⟨htogether.set, hlen⟩
  · intro b' k' hs
    rw [hstatus] at hs; cases hs
  · intro a ha; cases ha
  · intro b' k' hk _ n hs
    rw [hstatus] at hs
    cases hs
    rw [hseen]
    have hold := (h.flight.startViewChange i b k' (mem_flightAfter hk)).2.2 k had
    exact not_mem_cons_of_rest h.flight.nodup hk hold
  · intro b' k' _ _ n hs
    rw [hstatus] at hs; cases hs

/-- The node of the view becomes a candidate. -/
theorem inv_stand (had : (s.node i).viewchangeStatus = .viewChange b k) (hown : b.pid = (s.node i).pid)
    (hstatus : c.viewchangeStatus = .candidate b 1) :
    Inv S (s.set i (.vr (.startViewChange b sender)) c []) := by
  have hI := h.node i hi
  have hne : c.viewchangeStatus ≠ (s.node i).viewchangeStatus := by rw [hstatus, had]; simp
  have hvotes : s.votesAfter i (.vr (.startViewChange b sender)) c = [i] := if_neg hne
  have hc := steady_counting h hi hstarted hframe hnumber (by rw [hstatus, had]; rfl) (by simp [had])
  refine h.set (hI.self hc ?_ ?_ (Or.inl rfl)) (h.record.step hi hc ?_) (h.flight.silent rfl ?_ ?_)
  · intro b' k' hs
    rw [hstatus] at hs; cases hs
  · intro b' k' hs
    rw [hstatus] at hs
    cases hs
    rw [hvotes]
    refine ⟨hown.trans hI.pid, ⟨List.nodup_singleton i, List.mem_singleton.mpr rfl, ?_⟩, rfl⟩
    intro m hm hne
    exact absurd (List.mem_singleton.mp hm) hne
  · intro a ha; cases ha
  · intro b' k' _ _ n hs
    rw [hstatus] at hs; cases hs
  · intro b' k' _ hik n _
    rw [hvotes, List.mem_singleton]
    exact hik.symm

/-- Another node asks the node of the view to lead. -/
theorem inv_follow (hm : (i, .startViewChange b sender) ∈ s.flight)
    (had : (s.node i).viewchangeStatus = .viewChange b k) (henough : k + 1 = (s.node i).majority)
    (hother : b.pid ≠ (s.node i).pid) (hstatus : c.viewchangeStatus = .elected b)
    (houts : ∀ o ∈ out, IsNote o) :
    Inv S (s.set i (.vr (.startViewChange b sender)) c
      (.vr b.pid (.doViewChange b (s.node i).pid) :: out)) := by
  have hI := h.node i hi
  rw [hI.pid] at hother ⊢
  have hseen := @seenAfter_heard s i c b sender hnumber (by rw [hstatus, had]; simp)
  have hc := steady_counting h hi hstarted hframe hnumber (by rw [hstatus, had]; rfl) (by simp [had])
  have hmem : b.pid ∈ S.views := by
    have := (hI.valid hstarted).mem
    rw [had] at this
    exact this
  obtain ⟨htogether, hlen⟩ := seen_cons h hi hm had
  obtain ⟨hmsgs₀, hasked₀, hind₀⟩ := notes_nil houts (sender :: s.seen i)
  have hmsgs : messagesOf (.vr b.pid (.doViewChange b i) :: out) = [(b.pid, .doViewChange b i)] :=
    congrArg (_ :: ·) hmsgs₀
  have hasked : askedOf (.vr b.pid (.doViewChange b i) :: out) (sender :: s.seen i) =
      [⟨i, b, sender :: s.seen i⟩] := congrArg (_ :: ·) hasked₀
  have hfresh := not_asked h hi had
  refine h.set (hI.self hc ?_ ?_ (Or.inl hind₀)) (h.record.step hi hc ?_)
    (h.flight.step ?_ ?_ ?_ ?_ ?_ ?_)
  · intro b' k' hs
    rw [hstatus] at hs; cases hs
  · intro b' k' hs
    rw [hstatus] at hs; cases hs
  · intro a ha
    rw [hseen, hasked, List.mem_singleton] at ha
    rw [ha]
    refine ⟨rfl, hstatus, htogether.set, ?_⟩
    rw [hlen, henough, hI.majority]
  · rw [hmsgs]; exact List.nodup_singleton _
  · intro x hx hflight
    rw [hmsgs, List.mem_singleton] at hx
    rw [hx] at hflight
    obtain ⟨a, ha, hpid, hb⟩ := (h.flight.doViewChange b.pid b i hflight).2.1
    exact hfresh a ha hpid hb
  · intro b' k' _ _ n hs
    rw [hstatus] at hs; cases hs
  · intro b' k' _ _ n hs
    rw [hstatus] at hs; cases hs
  · intro j b' k' hx
    rw [hmsgs, List.mem_singleton] at hx
    cases hx
  · intro j b' k' hx
    rw [hmsgs, List.mem_singleton] at hx
    cases hx
    refine ⟨rfl, hother, ⟨⟨i, b, sender :: s.seen i⟩, ?_, rfl, rfl⟩, fun n hs hvoted => ?_⟩
    · refine List.mem_append_right _ ?_
      rw [hseen, hasked]
      exact List.mem_singleton.mpr rfl
    · obtain ⟨a, ha, hpid, hb⟩ := ((h.node b.pid hmem).votes b n hs).2.1.2.2 i hvoted hother.symm
      exact hfresh a ha hpid hb

/-- A `DoViewChange` is counted. -/
theorem inv_vote (hm : (i, .doViewChange b sender) ∈ s.flight)
    (had : (s.node i).viewchangeStatus = .candidate b k)
    (hstatus : c.viewchangeStatus = .candidate b (k + 1)) :
    Inv S (s.set i (.vr (.doViewChange b sender)) c []) := by
  have hI := h.node i hi
  have hne : c.viewchangeStatus ≠ (s.node i).viewchangeStatus := by rw [hstatus, had]; simp
  have hvotes : s.votesAfter i (.vr (.doViewChange b sender)) c = sender :: s.votes i := if_neg hne
  have hc := steady_counting h hi hstarted hframe hnumber (by rw [hstatus, had]; rfl) (by simp [had])
  obtain ⟨hpid, hbacked, hlen⟩ := votes_cons h hi hm had
  refine h.set (hI.self hc ?_ ?_ (Or.inl rfl)) (h.record.step hi hc ?_) (h.flight.silent rfl ?_ ?_)
  · intro b' k' hs
    rw [hstatus] at hs; cases hs
  · intro b' k' hs
    rw [hstatus] at hs
    cases hs
    rw [hvotes]
    exact ⟨hpid, hbacked.set, hlen⟩
  · intro a ha; cases ha
  · intro b' k' _ _ n hs
    rw [hstatus] at hs; cases hs
  · intro b' k' hk _ n hs
    rw [hstatus] at hs
    cases hs
    rw [hvotes]
    have hold := (h.flight.doViewChange i b k' (mem_flightAfter hk)).2.2 k had
    exact not_mem_cons_of_rest h.flight.nodup hk hold

/-- The candidate takes over. -/
theorem inv_win (hm : (i, .doViewChange b sender) ∈ s.flight)
    (had : (s.node i).viewchangeStatus = .candidate b k) (henough : k + 1 = (s.node i).majority)
    (hstatus : c.viewchangeStatus = .elected b) :
    Inv S (s.set i (.vr (.doViewChange b sender)) c [.indication ⟨(s.node i).pid, b⟩]) := by
  have hI := h.node i hi
  rw [hI.pid]
  have hc := steady_counting h hi hstarted hframe hnumber (by rw [hstatus, had]; rfl) (by simp [had])
  obtain ⟨hpid, hbacked, hlen⟩ := votes_cons h hi hm had
  refine h.set (hI.self hc ?_ ?_ (Or.inr ⟨b, sender :: s.votes i, rfl, hpid, hstatus, ?_, hnumber,
    hbacked.set, ?_⟩)) (h.record.step hi hc ?_) (h.flight.silent rfl ?_ ?_)
  · intro b' k' hs
    rw [hstatus] at hs; cases hs
  · intro b' k' hs
    rw [hstatus] at hs; cases hs
  · intro b' hs
    rw [had] at hs; cases hs
  · rw [hlen, henough, hI.majority]
  · intro a ha; cases ha
  · intro b' k' _ _ n hs
    rw [hstatus] at hs; cases hs
  · intro b' k' _ _ n hs
    rw [hstatus] at hs; cases hs

end Counting

/-- A node that has not been started enters view 1 when it is. -/
theorem start_enters {c₀ c' : VRLeaderElectionComp}
    (hs : c₀.viewchangeStatus = .elected default) (ha : c₀.leaderIsAlive = false)
    (h : c₀.handle .start = some (.ok (c', out))) :
    Frame c₀ c' ∧ c'.viewNumber = c₀.nextBallot.n ∧ c'.viewchangeStatus = .viewChange c₀.nextBallot 1 ∧
      out = c₀.startViewChange c₀.nextBallot := by
  have heq : c₀.hbTimeout default = .ok (c', out) := Option.some.inj h
  unfold hbTimeout at heq
  rw [hs] at heq
  dsimp only at heq
  rw [if_pos rfl, ha, if_neg (by decide), getNextView_eq] at heq
  cases heq
  exact ⟨⟨rfl, rfl, rfl⟩, rfl, rfl, rfl⟩

/-- The next view of a node is a valid one. -/
theorem nextBallot_valid (hviews : (s.node i).views = S.views) : Valid S (s.node i).nextBallot := by
  unfold Valid nextBallot
  rw [hviews]

/-- The next view is higher as long as the numbers are small. -/
theorem lt_nextBallot {c₀ : VRLeaderElectionComp} (hsmall : c₀.viewNumber < 2 ^ 32 - 1) :
    c₀.viewNumber < c₀.nextBallot.n := by
  have hn : (c₀.viewNumber + 1) % 2 ^ 32 = c₀.viewNumber + 1 := Nat.mod_eq_of_lt (by omega)
  show _ < (c₀.viewNumber + 1) % 2 ^ 32
  rw [hn]
  exact Nat.lt_succ_self _

/-- An event does what its handler does. -/
theorem step_handle {t : ViewElection} {x : ℕ × VREvent} (h : s.step S x = some t) :
    ∃ i e c out, x = (i, e) ∧ i ∈ S.views ∧ s.Input S i e ∧
      (s.node i).handle e = some (.ok (c, out)) ∧ t = s.set i e c out := by
  obtain ⟨i, e⟩ := x
  simp only [step] at h
  split_ifs at h with hin
  split at h
  · next c out hc =>
    cases h
    exact ⟨i, e, c, out, rfl, hin.1, hin.2, hc, rfl⟩
  · cases h

/-- A node that gets anything but `start` has been started. -/
theorem Input.started (h : s.Input S i e) (he : e ≠ .start) : s.started i = true := by
  cases e with
  | start => exact absurd rfl he
  | timeout => exact h
  | stop => exact h
  | partition => exact h
  | _ => exact h.1

/-! ### What holds for any view numbers -/

/-- What holds of a node also when the view numbers wrap around. -/
structure PlacedNode (S : Views) (s : ViewElection) (i : ℕ) : Prop where
  pid : (s.node i).pid = i
  views : (s.node i).views = S.views
  number : (s.node i).viewNumber = (s.node i).viewchangeStatus.ballot.n
  fresh : s.started i = false →
    (s.node i).viewchangeStatus = .elected default ∧ (s.node i).leaderIsAlive = false
  valid : s.started i = true → Valid S (s.node i).viewchangeStatus.ballot
  candidate : ∀ b k, (s.node i).viewchangeStatus = .candidate b k → b.pid = i
  indicated : ∀ l ∈ s.indications i, l.pid = i ∧ l.round.pid = i ∧ Valid S l.round

/-- Every ballot of a node that is up, of an indication or of an announcement has the pid of its
view. -/
structure Placed (S : Views) (s : ViewElection) : Prop where
  node : ∀ i ∈ S.views, PlacedNode S s i
  announced : ∀ i b k, (i, .startViewChange b k) ∈ s.flight → Valid S b

theorem placed_init (S : Views) : Placed S (init S) := by
  refine ⟨fun i _ => ⟨rfl, rfl, rfl, fun _ => ⟨rfl, rfl⟩, ?_, ?_, ?_⟩, ?_⟩
  · intro h; cases h
  · intro b k h; cases h
  · intro l hl; cases hl
  · intro i b k h; cases h

theorem PlacedNode.other (h : PlacedNode S s j) (hj : j ≠ i) : PlacedNode S (s.set i e c out) j := by
  refine ⟨?_, ?_, ?_, ?_, ?_, ?_, ?_⟩
  · rw [node_set_of_ne hj]; exact h.pid
  · rw [node_set_of_ne hj]; exact h.views
  · rw [node_set_of_ne hj]; exact h.number
  · rw [node_set_of_ne hj, started_set_of_ne hj]; exact h.fresh
  · rw [node_set_of_ne hj, started_set_of_ne hj]; exact h.valid
  · rw [node_set_of_ne hj]; exact h.candidate
  · rw [indications_set_of_ne hj]; exact h.indicated

/-- What a step of node `i` must show. -/
theorem Placed.set (h : Placed S s) (hi : i ∈ S.views) (hframe : Frame (s.node i) c)
    (hnumber : c.viewNumber = c.viewchangeStatus.ballot.n) (hvalid : Valid S c.viewchangeStatus.ballot)
    (hcandidate : ∀ b k, c.viewchangeStatus = .candidate b k → b.pid = i)
    (hindicated : ∀ l ∈ indicationsOf out, l.pid = i ∧ l.round.pid = i ∧ Valid S l.round)
    (hannounced : ∀ j b k, (j, .startViewChange b k) ∈ messagesOf out → Valid S b) :
    Placed S (s.set i e c out) := by
  have hI := h.node i hi
  refine ⟨fun j hj => ?_, fun j b k hm => ?_⟩
  · by_cases hji : j = i
    · subst hji
      refine ⟨?_, ?_, ?_, ?_, ?_, ?_, ?_⟩
      · rw [node_set_self]; exact hframe.pid.trans hI.pid
      · rw [node_set_self]; exact hframe.views.trans hI.views
      · rw [node_set_self]; exact hnumber
      · rw [started_set_self]; intro hf; cases hf
      · rw [node_set_self]; exact fun _ => hvalid
      · rw [node_set_self]; exact hcandidate
      · rw [indications_set_self]
        intro l hl
        rcases List.mem_append.mp hl with hl | hl
        · exact hI.indicated l hl
        · exact hindicated l hl
    · exact (h.node j hj).other hji
  · rcases List.mem_append.mp hm with hm | hm
    · exact h.announced j b k (mem_flightAfter hm)
    · exact hannounced j b k hm

/-- Entering a view. -/
theorem Placed.enter (h : Placed S s) (hi : i ∈ S.views) (hframe : Frame (s.node i) c)
    (hvalid : Valid S b) (hnumber : c.viewNumber = b.n) (hstatus : c.viewchangeStatus = .viewChange b 1) :
    Placed S (s.set i e c ((s.node i).startViewChange b)) := by
  obtain ⟨hmsgs, -, hind⟩ := startViewChange_outputs (s.node i) b []
  have hballot : c.viewchangeStatus.ballot = b := by rw [hstatus]; rfl
  refine h.set hi hframe (by rw [hballot]; exact hnumber) (by rw [hballot]; exact hvalid) ?_ ?_ ?_
  · intro b' k hs
    rw [hstatus] at hs; cases hs
  · intro l hl
    rw [hind] at hl; cases hl
  · intro j b' k hm
    rw [hmsgs] at hm
    obtain ⟨peer, -, heq⟩ := List.mem_map.mp hm
    cases heq
    exact hvalid

/-- A step within a view that announces none. -/
theorem Placed.within (h : Placed S s) (hi : i ∈ S.views) (hstarted : s.started i = true)
    (hframe : Frame (s.node i) c) (hnumber : c.viewNumber = (s.node i).viewNumber)
    (hballot : c.viewchangeStatus.ballot = (s.node i).viewchangeStatus.ballot)
    (hcandidate : ∀ b k, c.viewchangeStatus = .candidate b k → b.pid = i)
    (hindicated : ∀ l ∈ indicationsOf out,
      l.pid = i ∧ l.round.pid = i ∧ l.round = (s.node i).viewchangeStatus.ballot)
    (hsilent : ∀ j b k, (j, .startViewChange b k) ∉ messagesOf out) :
    Placed S (s.set i e c out) := by
  have hI := h.node i hi
  refine h.set hi hframe ?_ (by rw [hballot]; exact hI.valid hstarted) hcandidate ?_ ?_
  · rw [hnumber, hballot, hI.number]
  · intro l hl
    obtain ⟨hpid, hround, heq⟩ := hindicated l hl
    exact ⟨hpid, hround, heq ▸ hI.valid hstarted⟩
  · intro j b k hm
    exact absurd hm (hsilent j b k)

/-- A step of a node that is up, whatever its view number. -/
theorem Placed.move (h : Placed S s) (hi : i ∈ S.views) (hstarted : s.started i = true)
    (hin : s.Input S i e) (hm : Move (s.node i) e c out) : Placed S (s.set i e c out) := by
  have hI := h.node i hi
  cases hm with
  | quiet _ _ _ frame number status outs =>
    obtain ⟨hmsgs, -, hind⟩ := notes_nil outs []
    refine h.within hi hstarted frame number (by rw [status]) (status ▸ hI.candidate) ?_ ?_
    · rw [hind]; exact nofun
    · rw [hmsgs]; exact nofun
  | enter _ _ b frame cause number status =>
    rcases cause with ⟨rfl, -⟩ | ⟨sender, rfl, -⟩
    · exact h.enter hi frame (nextBallot_valid hI.views) number status
    · exact h.enter hi frame (h.announced i b sender hin.2) number status
  | count _ b sender k frame had _ number status =>
    exact h.within hi hstarted frame number (by rw [status, had]; rfl) (by simp [status]) nofun nofun
  | stand _ b sender k frame had _ own number status =>
    refine h.within hi hstarted frame number (by rw [status, had]; rfl) (fun b' k' hs => ?_) nofun nofun
    rw [status] at hs
    cases hs
    exact own.trans hI.pid
  | follow _ b sender k out frame had _ _ number status outs =>
    obtain ⟨hmsgs, -, hind⟩ := notes_nil outs []
    have hmsgs' : messagesOf (.vr b.pid (.doViewChange b (s.node i).pid) :: out) =
        [(b.pid, .doViewChange b (s.node i).pid)] := congrArg (_ :: ·) hmsgs
    have hind' : indicationsOf (.vr b.pid (.doViewChange b (s.node i).pid) :: out) = [] := hind
    refine h.within hi hstarted frame number (by rw [status, had]; rfl) (by simp [status]) ?_ ?_
    · rw [hind']; exact nofun
    · intro j b' k' hm
      rw [hmsgs', List.mem_singleton] at hm
      cases hm
  | vote _ b sender k frame had _ number status =>
    refine h.within hi hstarted frame number (by rw [status, had]; rfl) (fun b' k' hs => ?_) nofun nofun
    rw [status] at hs
    cases hs
    exact hI.candidate b k had
  | win _ b sender k frame had _ number status =>
    refine h.within hi hstarted frame number (by rw [status, had]; rfl) (by simp [status]) ?_ nofun
    intro l hl
    rw [List.mem_singleton.mp hl, had]
    exact ⟨hI.pid, hI.candidate b k had, rfl⟩

/-- **Every ballot has the pid of its view**, in every reachable state. -/
theorem placed_of_reachable (h : (machine S).Reachable s) : Placed S s := by
  refine h.invariant (P := Placed S) (placed_init S) fun s x t _ hplaced hstep => ?_
  obtain ⟨i, e, c, out, rfl, hi, hin, hc, rfl⟩ := step_handle hstep
  by_cases he : e = .start
  · subst he
    have hI := hplaced.node i hi
    obtain ⟨hs, ha⟩ := hI.fresh hin
    obtain ⟨hframe, hnumber, hstatus, rfl⟩ := start_enters hs ha hc
    exact hplaced.enter hi hframe (nextBallot_valid hI.views) hnumber hstatus
  · exact hplaced.move hi (Input.started hin he) hin (handle_move hc)

/-- The view number of a node decreases only from the last one. -/
theorem number_le_handle (hnumber : (s.node i).viewNumber = (s.node i).viewchangeStatus.ballot.n)
    (hsmall : (s.node i).viewNumber < 2 ^ 32 - 1) (hc : (s.node i).handle e = some (.ok (c, out))) :
    (s.node i).viewNumber ≤ c.viewNumber := by
  cases handle_move hc with
  | enter _ _ b _ cause number _ =>
    rw [number]
    rcases cause with ⟨rfl, -⟩ | ⟨sender, rfl, hb⟩
    · exact (lt_nextBallot hsmall).le
    · rw [hnumber]; exact hb.le
  | quiet _ _ _ _ number => exact number.ge
  | count _ _ _ _ _ _ _ number => exact number.ge
  | stand _ _ _ _ _ _ _ _ number => exact number.ge
  | follow _ _ _ _ _ _ _ _ _ number => exact number.ge
  | vote _ _ _ _ _ _ _ number => exact number.ge
  | win _ _ _ _ _ _ _ number => exact number.ge

theorem number_le_step (h : Placed S s) {t : ViewElection} {x : ℕ × VREvent} (hi : i ∈ S.views)
    (hsmall : (s.node i).viewNumber < 2 ^ 32 - 1) (hstep : s.step S x = some t) :
    (s.node i).viewNumber ≤ (t.node i).viewNumber := by
  obtain ⟨j, e, c, out, rfl, -, -, hc, rfl⟩ := step_handle hstep
  by_cases hij : i = j
  · subst hij
    rw [node_set_self]
    exact number_le_handle (h.node i hi).number hsmall hc
  · rw [node_set_of_ne hij]

/-- The panics of `newHbRound` are not reached. -/
theorem no_panic (h : Placed S s) (hi : i ∈ S.views) {p : VRPanic}
    (hp : p = .noElectedLeader ∨ p = .leaderNotInViews) : (s.node i).handle e ≠ some (.error p) := by
  intro hpanic
  have hI := h.node i hi
  obtain ⟨l, hl, halive, hmem⟩ := handle_panic hpanic hp
  cases hst : s.started i with
  | false =>
    rw [(hI.fresh hst).2] at halive
    cases halive
  | true =>
    have hvalid := (hI.valid hst).mem
    rw [hl, ← hI.views] at hvalid
    exact hmem hvalid

/-! ### What holds as long as the view numbers are small -/

/-- One event keeps the invariant. -/
theorem Inv.handle (h : Inv S s) (hi : i ∈ S.views) (hsmall : (s.node i).viewNumber < 2 ^ 32 - 1)
    (hin : s.Input S i e) (hc : (s.node i).handle e = some (.ok (c, out))) :
    Inv S (s.set i e c out) := by
  have hI := h.node i hi
  have hvalid := nextBallot_valid hI.views
  have hlt := lt_nextBallot hsmall
  by_cases he : e = .start
  · subst he
    obtain ⟨hs, ha⟩ := hI.fresh hin
    obtain ⟨hframe, hnumber, hstatus, rfl⟩ := start_enters hs ha hc
    exact inv_enter h hi hframe hvalid hlt hnumber hstatus
  have hst : s.started i = true := Input.started hin he
  cases handle_move hc with
  | quiet _ _ _ frame number status outs => exact inv_quiet h hi hst frame number status outs
  | enter _ _ b frame cause number status =>
    rcases cause with ⟨rfl, -⟩ | ⟨sender, rfl, hb⟩
    · exact inv_enter h hi frame hvalid hlt number status
    · -- a higher view that another node has announced
      rw [← hI.number] at hb
      have hent := (h.flight.startViewChange i b sender hin.2).2.1
      have hvalid' := (h.record.entered sender b hent).2.1
      exact inv_enter h hi frame hvalid' hb number status
  | count _ b sender k frame had _ number status =>
    exact inv_count h hi hst frame number hin.2 had status
  | stand _ b sender k frame had _ own number status =>
    exact inv_stand h hi hst frame number had own status
  | follow _ b sender k out frame had enough other number status outs =>
    exact inv_follow h hi hst frame number hin.2 had enough other status outs
  | vote _ b sender k frame had _ number status =>
    exact inv_vote h hi hst frame number hin.2 had status
  | win _ b sender k frame had enough number status =>
    exact inv_win h hi hst frame number hin.2 had enough status

theorem inv_of_reachable (h : (machine S).ReachableUnder (Small S) s) : Inv S s := by
  refine h.invariant (P := Inv S) (inv_init S) fun s x t _ hsmall hinv hstep => ?_
  obtain ⟨i, e, c, out, rfl, hi, hin, hc, rfl⟩ := step_handle hstep
  exact hinv.handle hi (hsmall i hi) hin hc

/-- The nodes behind an indication. -/
theorem quorum_of_won (h : Inv S s) (hi : i ∈ S.views) {l : Leader} (hl : l ∈ s.indications i) :
    ∃ Q : List ℕ, Q.Nodup ∧ S.views.length / 2 + 1 ≤ Q.length ∧ i ∈ Q ∧
      (∀ m ∈ Q, m ∈ S.views ∧ l.round.n ≤ (s.node m).viewNumber) ∧
      ∀ m ∈ Q, m ≠ i → ∃ a ∈ s.asked, a.pid = m ∧ a.ballot = l.round ∧
        Together s m l.round a.seen ∧ S.views.length / 2 + 1 ≤ a.seen.length := by
  obtain ⟨-, -, -, hle, -, Q, ⟨hnodup, hmem, hasked⟩, hlen⟩ := (h.node i hi).won l hl
  refine ⟨Q, hnodup, hlen, hmem, fun m hm => ?_, fun m hm hne => ?_⟩
  · by_cases hmi : m = i
    · rw [hmi]; exact ⟨hi, hle⟩
    · obtain ⟨a, ha, rfl, hb⟩ := hasked m hm hmi
      obtain ⟨hview, -, hn, -⟩ := h.record.asked a ha
      exact ⟨hview, hb ▸ hn⟩
  · obtain ⟨a, ha, rfl, hb⟩ := hasked m hm hne
    obtain ⟨-, -, -, -, htogether, hseen⟩ := h.record.asked a ha
    exact ⟨a, ha, rfl, hb, hb ▸ htogether, hseen⟩

end ViewElection

end OmniPaxosBench.LeaderElection
